import PuzzleKit.Proofs.Statements.Reads
import PuzzleKit.Proofs.Statements.Run
import PuzzleKit.Proofs.Generation

/-!
# Steps of generation read only their keys

Generation reads two things of its state, the checked coin and the codec of addresses, and
changes only the flags of the helpers a program uses. So a step that succeeds from one state
succeeds, with the same result, from any state with the same coin and codec: `Mirrors R x y`
says that `y` does whatever `x` does when `x` succeeds, with results related by `R`. The
generated code of a statement is built this way from one environment and its reference run
from another; the two agree when the environments agree on the keys the statement reads.
-/

namespace PuzzleKit.Script

/-- What generation reads of its state: the checked coin and the codec of addresses. -/
def Gen.fixed (g : Gen) : Analysis × AddressCodec := (g.analysis, g.codec)

namespace Generate

open Build

section Mirrors

variable {α β γ δ : Type}

/-- `y` mirrors the runs of `x` that succeed: such a run keeps the coin and the codec, and `y`
run from any state with the same coin and codec succeeds too, keeps them, and gives a result
related to that of `x` by `R`. -/
def Mirrors (R : α → β → Prop) (x : GenM α) (y : GenM β) : Prop :=
  ∀ g a g', x.run g = .ok (a, g') → g'.fixed = g.fixed ∧
    ∀ h, h.fixed = g.fixed → ∃ b h', y.run h = .ok (b, h') ∧ h'.fixed = h.fixed ∧ R a b

theorem mirrors_pure {R : α → β → Prop} {a : α} {b : β} (h : R a b) :
    Mirrors R (pure a) (pure b) := by
  intro g a' g' hrun
  cases hrun
  exact ⟨rfl, fun h' _ => ⟨b, h', rfl, rfl, h⟩⟩

theorem mirrors_bind {R : α → β → Prop} {S : γ → δ → Prop} {x : GenM α} {y : GenM β}
    {f : α → GenM γ} {k : β → GenM δ} (hx : Mirrors R x y)
    (hf : ∀ a b, R a b → Mirrors S (f a) (k b)) : Mirrors S (x >>= f) (y >>= k) := by
  intro g c g' hrun
  obtain ⟨a, g₁, h1, h2⟩ := stateT_bind_ok hrun
  obtain ⟨hg₁, hy⟩ := hx g a g₁ h1
  obtain ⟨b₀, -, -, -, hab₀⟩ := hy g rfl
  refine ⟨(hf a b₀ hab₀ g₁ c g' h2).1.trans hg₁, fun h hh => ?_⟩
  obtain ⟨b, h₁, hy1, hh₁, hab⟩ := hy h hh
  obtain ⟨d, h', hk1, hh', hcd⟩ := (hf a b hab g₁ c g' h2).2 h₁ (hh₁.trans (hh.trans hg₁.symm))
  refine ⟨d, h', ?_, hh'.trans hh₁, hcd⟩
  rw [StateT.run_bind, hy1]
  exact hk1

theorem Mirrors.map {R : α → β → Prop} {S : γ → δ → Prop} {x : GenM α} {y : GenM β}
    (hx : Mirrors R x y) {f : α → γ} {k : β → δ} (hfk : ∀ a b, R a b → S (f a) (k b)) :
    Mirrors S (f <$> x) (k <$> y) := by
  simp only [← bind_pure_comp]
  exact mirrors_bind hx fun a b hab => mirrors_pure (hfk a b hab)

theorem Mirrors.mono {R S : α → β → Prop} {x : GenM α} {y : GenM β} (hx : Mirrors R x y)
    (hRS : ∀ a b, R a b → S a b) : Mirrors S x y := fun g a g' hrun =>
  (hx g a g' hrun).imp_right fun hy h hh =>
    (hy h hh).imp fun _ ⟨h', hrun', hh', hab⟩ => ⟨h', hrun', hh', hRS _ _ hab⟩

theorem Mirrors.map_right {R : α → β → Prop} {S : α → γ → Prop} {x : GenM α} {y : GenM β}
    (hx : Mirrors R x y) {k : β → γ} (hk : ∀ a b, R a b → S a (k b)) : Mirrors S x (k <$> y) := by
  have h := hx.map (f := id) hk
  rwa [id_map] at h

theorem Mirrors.to_pure {R : α → β → Prop} {S : α → γ → Prop} {x : GenM α} {y : GenM β} {c : γ}
    (hx : Mirrors R x y) (hc : ∀ a b, R a b → S a c) : Mirrors S x (pure c) := by
  intro g a g' hrun
  obtain ⟨hg, hy⟩ := hx g a g' hrun
  obtain ⟨b, -, -, -, hab⟩ := hy g rfl
  exact ⟨hg, fun h _ => ⟨c, h, rfl, rfl, hc a b hab⟩⟩

theorem Mirrors.and_right {R : α → β → Prop} {x : GenM α} {y : GenM β} {Q : β → Prop}
    (hx : Mirrors R x y) (hQ : ∀ h b h', y.run h = .ok (b, h') → Q b) :
    Mirrors (fun a b => R a b ∧ Q b) x y := fun g a g' hrun =>
  (hx g a g' hrun).imp_right fun hy h hh =>
    (hy h hh).imp fun b ⟨h', hrun', hh', hab⟩ => ⟨h', hrun', hh', hab, hQ h b h' hrun'⟩

/-- The second half of the mirrored run may be replaced by one that succeeds wherever the first
did, run from the same state. -/
theorem Mirrors.bind_right {R : α → γ → Prop} {S : γ → δ → Prop} {x : GenM α} {y : GenM β}
    {k : β → GenM γ} {k' : β → GenM δ} (hx : Mirrors R x (y >>= k))
    (hk : ∀ b, Mirrors S (k b) (k' b)) :
    Mirrors (fun a d => ∃ c, R a c ∧ S c d) x (y >>= k') := by
  intro g a g' hrun
  obtain ⟨hg, hy⟩ := hx g a g' hrun
  refine ⟨hg, fun h hh => ?_⟩
  obtain ⟨c, h', hyk, hh', hac⟩ := hy h hh
  obtain ⟨b, h₁, hy1, hk1⟩ := stateT_bind_ok hyk
  obtain ⟨hh₁, hk'⟩ := hk b h₁ c h' hk1
  obtain ⟨d, h₂, hk'1, hh₂, hcd⟩ := hk' h₁ rfl
  refine ⟨d, h₂, ?_, hh₂.trans (hh₁.symm.trans hh'), c, hac, hcd⟩
  rw [StateT.run_bind, hy1]
  exact hk'1

/-- Two steps swap places between the runs when the success of the one that comes second in
the first run does not rest on what the other gives: `z` succeeds after `x` whatever `x` gives,
so it succeeds before it too. -/
theorem mirrors_swap {S : α → γ → δ → Prop} {T : γ → ε → Prop} {x : GenM α} {f : α → GenM γ}
    {z : GenM δ} {y : δ → GenM ε} (hf : ∀ a, Mirrors (S a) (f a) z)
    (hx : ∀ d, Mirrors (fun a e => ∀ c, S a c d → T c e) x (y d)) :
    Mirrors T (x >>= f) (z >>= y) := by
  intro g c g' hrun
  obtain ⟨a, g₁, h1, h2⟩ := stateT_bind_ok hrun
  obtain ⟨hg', hz⟩ := hf a g₁ c g' h2
  -- `z` run where `x` left off gives a result to read `x`'s run with
  obtain ⟨d₀, -, -, -, -⟩ := hz g₁ rfl
  have hg₁ := (hx d₀ g a g₁ h1).1
  refine ⟨hg'.trans hg₁, fun h hh => ?_⟩
  obtain ⟨d, h₁, hz1, hh₁, hacd⟩ := hz h (hh.trans hg₁.symm)
  obtain ⟨e, h₂, hy1, hh₂, hce⟩ := (hx d g a g₁ h1).2 h₁ (hh₁.trans hh)
  refine ⟨e, h₂, ?_, hh₂.trans hh₁, hce c hacd⟩
  rw [StateT.run_bind, hz1]
  exact hy1

theorem mirrors_get {R : α → β → Prop} {f : Gen → GenM α} {k : Gen → GenM β}
    (hfk : ∀ g h, g.fixed = h.fixed → Mirrors R (f g) (k h)) :
    Mirrors R (get >>= f) (get >>= k) := by
  intro g a g' hrun
  obtain ⟨s, g₁, h1, h2⟩ := stateT_bind_ok hrun
  cases h1
  exact ⟨(hfk g g rfl g a g' h2).1, fun h hh => (hfk g h hh.symm g a g' h2).2 h hh⟩

theorem mirrors_modify {f k : Gen → Gen} (hf : ∀ g, (f g).fixed = g.fixed)
    (hk : ∀ g, (k g).fixed = g.fixed) : Mirrors (fun _ _ => True) (modify f) (modify k) := by
  intro g a g' hrun
  cases hrun
  exact ⟨hf g, fun h _ => ⟨(), k h, rfl, hk h, trivial⟩⟩

theorem mirrors_modify_left {R : α → β → Prop} {f : Gen → Gen} {x : GenM α} {y : GenM β}
    (hf : ∀ g, (f g).fixed = g.fixed) (hx : Mirrors R x y) :
    Mirrors R (modify f >>= fun _ => x) y := by
  intro g a g' hrun
  obtain ⟨_, g₁, h1, h2⟩ := stateT_bind_ok hrun
  cases h1
  obtain ⟨hg, hy⟩ := hx (f g) a g' h2
  exact ⟨hg.trans (hf g), fun h hh => hy h (hh.trans (hf g).symm)⟩

/-- Generating both arms of an `if` mirrors running the arm its test picks, when each arm
mirrors its own run and what follows depends only on the arm picked. -/
theorem mirrors_arms {R : α → β → Prop} {S : γ → δ → Prop} {x₁ x₂ : GenM α} {y₁ y₂ : GenM β}
    {K : α → α → GenM γ} {L : β → GenM δ} (b : Bool) (h₁ : Mirrors R x₁ y₁)
    (h₂ : Mirrors R x₂ y₂) (hK : ∀ t o r, (if b then R t r else R o r) → Mirrors S (K t o) (L r)) :
    Mirrors S (x₁ >>= fun t => x₂ >>= fun o => K t o) ((if b then y₁ else y₂) >>= L) := by
  intro g a g' hrun
  obtain ⟨t, g₁, ht, hrun⟩ := stateT_bind_ok hrun
  obtain ⟨o, g₂, ho, hk⟩ := stateT_bind_ok hrun
  obtain ⟨hg₁, hy₁⟩ := h₁ g t g₁ ht
  obtain ⟨hg₂, hy₂⟩ := h₂ g₁ o g₂ ho
  have hpick : ∀ h, h.fixed = g.fixed → ∃ r h', (if b then y₁ else y₂).run h = .ok (r, h') ∧
      h'.fixed = h.fixed ∧ (if b then R t r else R o r) := by
    intro h hh
    cases b with
    | true => exact hy₁ h hh
    | false => exact hy₂ h (hh.trans hg₁.symm)
  obtain ⟨r₀, -, -, -, hr₀⟩ := hpick g rfl
  refine ⟨(hK t o r₀ hr₀ g₂ a g' hk).1.trans (hg₂.trans hg₁), fun h hh => ?_⟩
  obtain ⟨r, h₁, hy, hh₁, hr⟩ := hpick h hh
  obtain ⟨d, h', hL, hh', hd⟩ :=
    (hK t o r hr g₂ a g' hk).2 h₁ (hh₁.trans (hh.trans (hg₂.trans hg₁).symm))
  refine ⟨d, h', ?_, hh'.trans hh₁, hd⟩
  rw [StateT.run_bind, hy]
  exact hL

theorem mirrors_lift (r : Except Failure α) : Mirrors Eq (lift r) (lift r) := by
  intro g a g' hrun
  cases r with
  | ok b =>
    cases hrun
    exact ⟨rfl, fun h _ => ⟨_, h, rfl, rfl, rfl⟩⟩
  | error e => cases hrun

theorem mirrors_of_lift {x : GenM α} (h : ∃ r, x = lift r) : Mirrors Eq x x := by
  obtain ⟨r, rfl⟩ := h
  exact mirrors_lift r

theorem mirrors_fault {R : α → β → Prop} {y : GenM β} (text : String) (pos : Option Pos) :
    Mirrors R (fault text pos) y := by
  intro g a g' hrun
  cases hrun

theorem mirrors_throw_bind {S : γ → δ → Prop} {f : α → GenM γ} {y : GenM δ} (e : Failure) :
    Mirrors S (throw e >>= f) y := by
  intro g a g' hrun
  obtain ⟨_, _, h1, -⟩ := stateT_bind_ok hrun
  cases h1

theorem stateT_map_ok {f : α → β} {x : GenM α} {g g' : Gen} {b : β}
    (h : (f <$> x).run g = .ok (b, g')) : ∃ a, x.run g = .ok (a, g') ∧ b = f a := by
  rw [StateT.run_map] at h
  cases hx : x.run g with
  | error e => simp [hx, Functor.map, Except.map] at h
  | ok p =>
    simp only [hx, Functor.map, Except.map, Except.ok.injEq, Prod.mk.injEq] at h
    exact ⟨p.1, by rw [← h.2], h.1.symm⟩

theorem mirrors_mapM {f k : γ → GenM α} :
    ∀ (xs : List γ), (∀ x ∈ xs, Mirrors Eq (f x) (k x)) → Mirrors Eq (xs.mapM f) (xs.mapM k)
  | [], _ => mirrors_pure rfl
  | x :: xs, h => by
    simp only [List.mapM_cons]
    refine mirrors_bind (h x List.mem_cons_self) fun a _ ha => ?_
    subst ha
    refine mirrors_bind (mirrors_mapM xs fun y hy => h y (List.mem_cons_of_mem _ hy))
      fun as _ has => ?_
    subst has
    exact mirrors_pure rfl

end Mirrors

/-! ### Expressions and statements on environments that agree on their keys -/

variable {env₁ env₂ : Env}

theorem lookup_mirrors {k : String} (h : env₁.lookup k = env₂.lookup k) (pos : Pos) :
    Mirrors Eq (lookup env₁ k pos) (lookup env₂ k pos) := by
  unfold lookup
  rw [h]
  split
  · exact mirrors_pure rfl
  · exact mirrors_fault _ _

mutual

theorem expr_mirrors : ∀ (e : Expr), (∀ k ∈ e.keys, env₁.lookup k = env₂.lookup k) →
    Mirrors Eq (expr env₁ e) (expr env₂ e)
  | .lit l _, _ => by
    simp only [expr]
    refine mirrors_get fun g h hgh => ?_
    rw [show g.codec = h.codec from congrArg Prod.snd hgh]
    exact mirrors_pure rfl
  | .ident n pos, hk => by
    simp only [expr]
    rw [hk n (by simp [Expr.keys])]
    cases env₂.lookup n with
    | some v => exact mirrors_pure rfl
    | none =>
      refine mirrors_get fun g h hgh => ?_
      rw [show g.analysis = h.analysis from congrArg Prod.fst hgh]
      refine mirrors_of_lift ?_
      split
      · split
        · exact ⟨.ok _, rfl⟩
        · exact ⟨.error _, rfl⟩
      · exact ⟨.error _, rfl⟩
  | .binary op l r pos, hk => by
    simp only [expr]
    refine mirrors_bind (expr_mirrors l fun k h => hk k (by simp [Expr.keys, h])) fun a _ ha => ?_
    subst ha
    refine mirrors_bind (expr_mirrors r fun k h => hk k (by simp [Expr.keys, h])) fun b _ hb => ?_
    subst hb
    refine mirrors_of_lift ?_
    split
    · exact ⟨.ok _, rfl⟩
    · exact ⟨.error _, rfl⟩
  | .unary op e pos, hk => by
    simp only [expr]
    refine mirrors_bind (expr_mirrors e fun k h => hk k (by simpa [Expr.keys] using h))
      fun a _ ha => ?_
    subst ha
    exact mirrors_pure rfl
  | .member o prop pos, hk => by
    simp only [expr]
    split_ifs with h1 h2
    · exact lookup_mirrors (hk _ (by simp [Expr.keys, h1])) pos
    · exact lookup_mirrors (hk _ (by simp [Expr.keys, h1, h2])) pos
    · exact mirrors_fault _ _
  | .index o k pos, hk => by
    simp only [expr]
    refine mirrors_bind (mirrors_modify (fun _ => rfl) (fun _ => rfl)) fun _ _ _ => ?_
    refine mirrors_bind (lookup_mirrors (hk _ (by simp [Expr.keys])) pos) fun m _ hm => ?_
    subst hm
    refine mirrors_bind (expr_mirrors k fun j h => hk j (by simp [Expr.keys, h]))
      fun key _ hkey => ?_
    subst hkey
    exact mirrors_pure rfl
  | .call f args pos, hk => by
    simp only [expr]
    refine mirrors_bind (exprs_mirrors args fun k h => hk k (by simpa [Expr.keys] using h))
      fun xs _ hxs => ?_
    subst hxs
    refine mirrors_get fun g h hgh => ?_
    rw [show g.analysis = h.analysis from congrArg Prod.fst hgh]
    refine mirrors_of_lift ?_
    -- a function of the coin, a built-in operator or a library function, or no such function
    split
    · exact ⟨.ok _, rfl⟩
    · split
      · exact ⟨.ok _, rfl⟩
      · split
        · exact ⟨.ok _, rfl⟩
        · exact ⟨.error _, rfl⟩

theorem exprs_mirrors : ∀ (es : List Expr),
    (∀ k ∈ Expr.keysOf es, env₁.lookup k = env₂.lookup k) →
    Mirrors Eq (exprs env₁ es) (exprs env₂ es)
  | [], _ => by
    simp only [exprs]
    exact mirrors_pure rfl
  | e :: es, hk => by
    simp only [exprs]
    refine mirrors_bind (expr_mirrors e fun k h => hk k (by simp [Expr.keysOf, h]))
      fun a _ ha => ?_
    subst ha
    refine mirrors_bind (exprs_mirrors es fun k h => hk k (by simp [Expr.keysOf, h]))
      fun b _ hb => ?_
    subst hb
    exact mirrors_pure rfl

end

theorem conditionCall_mirrors (ctx : Lowering) (e : Expr)
    (hk : ∀ k ∈ e.keys, env₁.lookup k = env₂.lookup k) :
    Mirrors Eq (conditionCall env₁ ctx e) (conditionCall env₂ ctx e) := by
  cases e with
  | call f args q =>
    simp only [conditionCall]
    split
    · refine mirrors_bind (exprs_mirrors args fun k h => hk k (by simpa [Expr.keys] using h))
        fun xs _ hxs => ?_
      subst hxs
      exact mirrors_lift _
    · exact mirrors_fault _ _
  | _ =>
    simp only [conditionCall]
    exact mirrors_fault _ _

/-- An assignment binds its key to the same value in both environments, when they agree on what
it reads. -/
theorem assign_mirrors (t : Expr) (op : String) (v : Expr) (pos : Pos) (d : Option TypeRef)
    (hk : ∀ k ∈ (Stmt.assign t op v pos d).keys, env₁.lookup k = env₂.lookup k) :
    Mirrors (fun e₁ e₂ => ∃ x, e₁ = env₁.bind (assignKey t) x ∧ e₂ = env₂.bind (assignKey t) x)
      (assign env₁ t op v pos) (assign env₂ t op v pos) := by
  have hv : ∀ k ∈ v.keys, env₁.lookup k = env₂.lookup k :=
    fun k h => hk k (by simp only [Stmt.keys, List.mem_append]; exact .inr h)
  have hvalue : (op ≠ "=" → env₁.lookup (assignKey t) = env₂.lookup (assignKey t)) →
      Mirrors (fun e₁ e₂ => ∃ x, e₁ = env₁.bind (assignKey t) x ∧ e₂ = env₂.bind (assignKey t) x)
        (do
          let value ← expr env₁ v
          if (op == "=") = true then pure (env₁.bind (assignKey t) value)
          else do
            let old ← lookup env₁ (assignKey t) pos
            pure (env₁.bind (assignKey t)
              (if (op == "=") = true then value else call (op.take 1).toString [old, value])))
        (do
          let value ← expr env₂ v
          if (op == "=") = true then pure (env₂.bind (assignKey t) value)
          else do
            let old ← lookup env₂ (assignKey t) pos
            pure (env₂.bind (assignKey t)
              (if (op == "=") = true then value else call (op.take 1).toString [old, value]))) := by
    intro hold
    refine mirrors_bind (expr_mirrors v hv) fun value _ h => ?_
    subst h
    split_ifs with hop
    · exact mirrors_pure ⟨_, rfl, rfl⟩
    · refine mirrors_bind (lookup_mirrors (hold (by simpa using hop)) pos) fun old _ h => ?_
      subst h
      exact mirrors_pure ⟨_, rfl, rfl⟩
  have hold : op ≠ "=" → (∀ o k q, t ≠ .index o k q) →
      env₁.lookup (assignKey t) = env₂.lookup (assignKey t) := by
    intro hop hidx
    refine hk _ ?_
    cases t with
    | index o k q => exact absurd rfl (hidx o k q)
    | _ => simp [Stmt.keys, hop]
  unfold assign
  dsimp only
  cases t with
  | index o k q =>
    have hk' := fun j h => hk j (by simp only [Stmt.keys, List.mem_append, List.mem_cons]; exact h)
    refine mirrors_bind (lookup_mirrors (hk' _ (.inl (.inl rfl))) q) fun cur _ h => ?_
    subst h
    refine mirrors_bind (expr_mirrors k fun j h => hk' j (.inl (.inr h))) fun key _ h => ?_
    subst h
    refine mirrors_bind (expr_mirrors v hv) fun value _ h => ?_
    subst h
    refine mirrors_bind (mirrors_modify (fun _ => rfl) (fun _ => rfl)) fun _ _ _ => ?_
    exact mirrors_pure ⟨_, rfl, rfl⟩
  | ident n q =>
    simp only [pure_bind]
    exact hvalue fun hop => hold hop fun _ _ _ h => by cases h
  | member o p q =>
    by_cases hs : isName "state" o = true
    · simp only [hs, ↓reduceIte, pure_bind]
      exact hvalue fun hop => hold hop fun _ _ _ h => by cases h
    · simp only [hs, Bool.false_eq_true, ↓reduceIte]
      exact mirrors_throw_bind _
  | lit | binary | unary | call => exact mirrors_throw_bind _

/-- The step of a statement that tests or adds a condition is the same from environments that
agree on what it reads, and it is never a merged `if`. -/
theorem piece_mirrors (ctx : Lowering) (s : Stmt)
    (hk : ∀ k ∈ s.keys, env₁.lookup k = env₂.lookup k) :
    Mirrors (fun p q => p = q ∧ ∀ n, p ≠ some (.merge n)) (piece ctx env₁ s) (piece ctx env₂ s) := by
  cases s with
  | require c m p =>
    rcases ht : senderTarget? c with _ | t
    · simp only [piece, ht]
      refine mirrors_bind (expr_mirrors c fun k h => hk k (by simp [Stmt.keys, ht, h]))
        fun c' _ h => ?_
      subst h
      exact mirrors_pure ⟨rfl, by simp⟩
    · simp only [piece, ht]
      refine mirrors_bind (expr_mirrors t fun k h => hk k (by simp [Stmt.keys, ht, h]))
        fun who _ h => ?_
      subst h
      refine mirrors_bind (mirrors_lift _) fun c' _ h => ?_
      subst h
      exact mirrors_pure ⟨rfl, by simp⟩
  | send r a m p =>
    simp only [piece]
    refine mirrors_bind (expr_mirrors r fun k h => hk k (by simp [Stmt.keys, h])) fun rc _ h => ?_
    subst h
    refine mirrors_bind (expr_mirrors a fun k h => hk k (by simp [Stmt.keys, h])) fun ac _ h => ?_
    subst h
    have hcoin : ∀ mc, Mirrors (fun p q => p = q ∧ ∀ n, p ≠ some (.merge n))
        (do
          let c ← lift (condition "CREATE_COIN" ([rc, ac] ++ mc))
          pure (some (Piece.cons c)))
        (do
          let c ← lift (condition "CREATE_COIN" ([rc, ac] ++ mc))
          pure (some (Piece.cons c))) := fun mc =>
      mirrors_bind (mirrors_lift _) fun c _ h => h ▸ mirrors_pure ⟨rfl, by simp⟩
    cases m with
    | some x =>
      simp only [pure_bind]
      refine mirrors_bind (expr_mirrors x fun k h => hk k (by simp [Stmt.keys, h]))
        fun y _ h => ?_
      subst h
      exact hcoin _
    | none =>
      simp only [pure_bind]
      exact hcoin []
  | emit ev args p =>
    simp only [piece]
    refine mirrors_bind (exprs_mirrors args fun k h => hk k (by simpa [Stmt.keys] using h))
      fun xs _ h => ?_
    subst h
    refine mirrors_bind (mirrors_lift _) fun c _ h => ?_
    subst h
    exact mirrors_pure ⟨rfl, by simp⟩
  | eval e p =>
    simp only [piece]
    refine mirrors_bind (conditionCall_mirrors ctx e fun k h => hk k (by simpa [Stmt.keys] using h))
      fun c _ h => ?_
    subst h
    exact mirrors_pure ⟨rfl, by simp⟩
  | branch | assign | ret | fail => exact mirrors_pure ⟨rfl, by simp⟩

/-! ### The exit and the access check -/

/-- The keys the exit of an action reads: the state fields of a stateful action. -/
def exitKeys (ctx : Lowering) : List String :=
  if ctx.function || !ctx.stateful then [] else ctx.stateFields.map ("state." ++ ·)

theorem exitConditions_mirrors (ctx : Lowering)
    (hk : ∀ k ∈ exitKeys ctx, env₁.lookup k = env₂.lookup k) :
    Mirrors Eq (exitConditions env₁ ctx) (exitConditions env₂ ctx) := by
  unfold exitConditions
  split_ifs with hs
  · exact mirrors_pure rfl
  · refine mirrors_bind (mirrors_mapM _ fun f hf => ?_) fun fields _ h => ?_
    · rw [hk _ (by simp [exitKeys, hs, hf])]
      refine mirrors_of_lift ?_
      split
      · exact ⟨.ok _, rfl⟩
      · exact ⟨.error _, rfl⟩
    · subst h
      refine mirrors_bind (mirrors_lift _) fun c _ h => ?_
      subst h
      exact mirrors_pure rfl

theorem exit_eq (env : Env) (ctx : Lowering) :
    exit env ctx = (fun cs => cs.foldr consCondition Noted.nil) <$> exitConditions env ctx := by
  unfold exit exitConditions
  split_ifs
  · simp
  -- the two sides differ in how the memo condition is wrapped and in the matchers of their
  -- lookups, which are written alike and unfold to the same term
  · rw [map_bind]
    rfl

@[simp] theorem Noted.emits_foldr_consCondition (V : Noted → Bool) :
    ∀ cs : List Noted, (cs.foldr consCondition Noted.nil).emits V = some cs
  | [] => rfl
  | c :: cs => by simp [Noted.emits_foldr_consCondition V cs]

theorem exit_mirrors (V : Noted → Bool) (ctx : Lowering)
    (hk : ∀ k ∈ exitKeys ctx, env₁.lookup k = env₂.lookup k) :
    Mirrors (fun code cs => code.emits V = some cs) (exit env₁ ctx) (exitConditions env₂ ctx) := by
  rw [exit_eq, ← id_map (exitConditions env₂ ctx)]
  exact (exitConditions_mirrors ctx hk).map fun cs _ h => by simp [h]

/-- The access check around code `out` emits the signature the access rule asks for before what
`out` emits, or fails when the signer is not allowed. -/
theorem signerCheck_mirrors (V : Noted → Bool) (access : List Expr) (signer message out : Noted) :
    Mirrors (fun code guard => code.emits V = guard.bind fun pre => (out.emits V).map (pre ++ ·))
      (signerCheck access signer message out) (signerGuard V access signer message) := by
  unfold signerCheck signerGuard
  refine mirrors_bind (mirrors_mapM access fun e _ => expr_mirrors e fun _ _ => rfl)
    fun addrs _ h => ?_
  subst h
  rcases addrs with _ | ⟨who, _ | ⟨other, rest⟩⟩
  · exact mirrors_pure (by simp)
  · refine mirrors_bind (mirrors_lift _) fun c _ h => ?_
    subst h
    exact mirrors_pure (by simp)
  · -- several addresses: the signer must be one of them
    dsimp only
    split_ifs with hV
    · refine mirrors_bind (mirrors_lift _) fun c _ h => ?_
      subst h
      refine mirrors_pure ?_
      rw [Noted.emits_ifNode, if_pos hV]
      simp
    · cases hc : condition "AGG_SIG_ME" [signer, message] with
      | error e => exact mirrors_throw_bind _
      | ok c =>
        refine mirrors_pure ?_
        rw [Noted.emits_ifNode, if_neg hV]
        simp

end Generate

end PuzzleKit.Script
