import PuzzleKit.Proofs.Statements.Action
import PuzzleKit.Proofs.Statements.Written
import PuzzleKit.Proofs.Declared

/-!
# The code of an accepted action keeps its meaning

The check of a coin makes sure that each declaration in a body names something new where it
stands (`stmts_fresh`): the check finds no scope and no name of the coin that holds it, and a
plain name, as the parser writes one, is neither the key of the amount nor that of a state
field. With the names of the body resolving (`stmts_resolves`), the body of every action the
check records is clean at the keys of the state fields (`analyze_bodies_clean`): no name that an
arm of an `if` declares is read after the `if`. That is all lowering needs to keep the meaning
of a body, so the code generated for an action of a coin the check accepts emits what a spend of
the action emits under every valuation (`accepted_action_emits`).
-/

namespace PuzzleKit.Script

open Generate

variable {G : List Symbol}

theorem Block.Fresh.anti {K K' : List String} (hK : K ⊆ K') {ss : List Stmt}
    (h : Block.Fresh G K' ss) : Block.Fresh G K ss := by
  induction h generalizing K with
  | nil => exact .nil
  | declare hn hG _ ih =>
    exact .declare (fun h => hn (hK h)) hG (ih (List.cons_subset_cons _ hK))
  | branch _ _ _ ihy ihn ihr => exact .branch (ihy hK) (ihn hK) (ihr hK)
  | other hs hb _ ih => exact .other hs hb (ih hK)

theorem Frame.mem_names_define_of_mem {f : Frame} (s : Symbol) {n : String}
    (h : n ∈ f.symbols.map (·.name)) : n ∈ (f.define s).symbols.map (·.name) := by
  obtain ⟨t, ht, rfl⟩ := List.mem_map.mp h
  unfold Frame.define
  split
  · by_cases hts : (t.name == s.name) = true
    · -- the symbol of that name is replaced by one of the same name
      exact List.mem_map.mpr ⟨s, List.mem_map.mpr ⟨t, ht, if_pos hts⟩, (beq_iff_eq.mp hts).symm⟩
    · exact List.mem_map.mpr ⟨t, List.mem_map.mpr ⟨t, ht, if_neg hts⟩, rfl⟩
  · exact List.mem_map.mpr ⟨t, List.mem_append_left _ ht, rfl⟩

theorem Frame.mem_names_define_self (f : Frame) (s : Symbol) :
    s.name ∈ (f.define s).symbols.map (·.name) := by
  unfold Frame.define
  split
  · rename_i hany
    obtain ⟨t, ht, hts⟩ := List.any_eq_true.mp hany
    exact List.mem_map.mpr ⟨s, List.mem_map.mpr ⟨t, ht, if_pos hts⟩, rfl⟩
  · simp

namespace Check

theorem plain_ne_amount {n : String} (h : '.' ∉ n.toList) : n ≠ "msg.value" := by
  rintro rfl
  exact h (by decide)

theorem plain_ne_field {n : String} (h : '.' ∉ n.toList) (f : String) : n ≠ "state." ++ f := by
  rintro rfl
  exact h (by simp [String.toList_append])

theorem Ctx.not_mem_keys {ctx : Ctx} {n : String} (hplain : '.' ∉ n.toList)
    (hf : ctx.frames.findSome? (·.find? n) = none) (a : Bool) : n ∉ ctx.keys G a := by
  intro hk
  simp only [Ctx.keys, List.mem_append] at hk
  rcases hk with hk | hk | hk
  · -- a scope that holds the name finds it
    obtain ⟨f, hf', hn⟩ := List.mem_flatMap.mp hk
    obtain ⟨s, hs, rfl⟩ := List.mem_map.mp hn
    have hnone := List.findSome?_eq_none_iff.mp hf f hf'
    simp only [Frame.find?, List.find?_eq_none, beq_iff_eq] at hnone
    exact hnone s hs rfl
  · split at hk
    · exact plain_ne_amount hplain (List.mem_singleton.mp hk)
    · exact absurd hk List.not_mem_nil
  · split at hk
    · obtain ⟨s, -, hs⟩ := List.mem_map.mp hk
      exact plain_ne_field hplain _ hs.symm
    · exact absurd hk List.not_mem_nil

theorem assign_declare_adds {ctx : Ctx} (hfr : ctx.frames ≠ []) (n : String) (q : Pos)
    (op : String) (v : Expr) (p : Pos) (ty : TypeRef) :
    ∃ ctx', Returns ctx' (assign ctx (.ident n q) op v p (some ty)) ∧ ctx'.frames ≠ [] ∧
      ∀ a, n :: ctx.keys G a ⊆ ctx'.keys G a := by
  obtain ⟨f, fs, hfs⟩ := List.exists_cons_of_ne_nil hfr
  unfold assign
  refine ⟨_, returns_bind fun _ => returns_guard _ _ _ fun _ => returns_bind fun _ =>
    returns_guard _ _ _ fun _ => returns_pure, by simp [hfs], fun a k hk => ?_⟩
  simp only [Ctx.keys, hfs, List.flatMap_cons, List.mem_cons, List.mem_append] at hk ⊢
  rcases hk with rfl | (hk | hk) | hk
  · exact .inl (.inl (Frame.mem_names_define_self f _))
  · exact .inl (.inl (Frame.mem_names_define_of_mem _ hk))
  · exact .inl (.inr hk)
  · exact .inr hk

theorem stmt_keeps_scope {ctx : Ctx} (hfr : ctx.frames ≠ []) (s : Stmt)
    (hd : s.declaresSimply = true) (c : Checker) : (((stmt ctx s).run c).1).frames ≠ [] := by
  -- only a declaration changes the context
  cases s
  case assign t op v p d =>
    cases d with
    | none =>
      rw [stmt_returns ctx _ (fun _ _ _ _ _ h => by cases h) c]
      exact hfr
    | some ty =>
      cases t
      case ident n q =>
        obtain ⟨ctx', hret, hfr', -⟩ := assign_declare_adds (G := []) hfr n q op v p ty
        unfold stmt
        rw [hret c]
        exact hfr'
      all_goals simp [Stmt.declaresSimply] at hd
  all_goals
    rw [stmt_returns ctx _ (fun _ _ _ _ _ h => by cases h) c]
    exact hfr

theorem fresh_of_returns {ctx : Ctx} {s : Stmt}
    (hs : ∀ t op v p ty, s ≠ .assign t op v p (some ty)) (hb : ∀ c yes no p, s ≠ .branch c yes no p)
    {c : Checker} {am : Bool} {rest : List Stmt}
    (hrest : Block.Fresh G ((((stmt ctx s).run c).1).keys G am) rest) :
    Block.Fresh G (ctx.keys G am) (s :: rest) := by
  rw [stmt_returns ctx s hs c] at hrest
  exact .other hs hb hrest

mutual

theorem stmt_fresh (ctx : Ctx) (s : Stmt) (c : Checker) (am : Bool) (hc : c.globals.symbols = G)
    (hfr : ctx.frames ≠ []) (hd : s.declaresSimply = true)
    (hplain : ∀ n ∈ Stmt.declared s, '.' ∉ n.toList) (h : Clean (stmt ctx s) c) (rest : List Stmt)
    (hrest : Block.Fresh G ((((stmt ctx s).run c).1).keys G am) rest) :
    Block.Fresh G (ctx.keys G am) (s :: rest) := by
  cases s
  case assign t op v p d =>
    cases d with
    | none =>
      exact fresh_of_returns (fun _ _ _ _ _ h => by cases h) (fun _ _ _ _ h => by cases h) hrest
    | some ty =>
      -- the parser declares only plain names
      cases t
      case ident n q =>
        unfold stmt at h hrest
        obtain ⟨ctx', hret, -, hkeys⟩ := assign_declare_adds (G := G) hfr n q op v p ty
        rw [hret c] at hrest
        unfold assign at h
        have h1 := Clean.of_read (lookup_run ctx n c) h
        have hfree := Clean.guard (fun _ => steady_bind (steady_expr _ _) fun _ =>
          steady_guard _ _ _ fun _ => steady_pure _) h1
        -- neither a scope nor the coin holds the name
        have hnone : ctx.frames.findSome? (·.find? n) = none ∧ c.globals.find? n = none := by
          cases hf : ctx.frames.findSome? (·.find? n) <;> simp_all
        have hn : '.' ∉ n.toList := hplain n (by simp [Stmt.declared, assignKey])
        refine .declare (Ctx.not_mem_keys hn hnone.1 am) ?_ (hrest.anti (hkeys am))
        rw [← hc]
        exact hnone.2
      all_goals simp [Stmt.declaresSimply] at hd
  case branch cnd yes no p =>
    simp only [Stmt.declaresSimply, Bool.and_eq_true] at hd
    simp only [Stmt.declared, List.mem_append] at hplain
    rw [stmt_returns ctx (.branch cnd yes no p) (fun _ _ _ _ _ h => by cases h) c] at hrest
    unfold stmt at h
    cases no with
    | some no =>
      obtain ⟨-, h1⟩ := Clean.bind (steady_expectClass _ _ _ _) (fun _ =>
        steady_bind (steady_stmts _ _) fun _ => steady_bind (steady_stmts _ _) fun _ =>
          steady_pure _) h
      obtain ⟨hyes, h2⟩ := Clean.bind (steady_stmts _ _) (fun _ =>
        steady_bind (steady_stmts _ _) fun _ => steady_pure _) h1
      have hno := (Clean.bind (steady_stmts _ _) (fun _ => steady_pure _) h2).1
      have hc1 := (steady_expectClass ctx cnd boolClass "if condition" c).symbols hc
      have hc2 := ((steady_stmts ctx.inner yes) _).symbols hc1
      have fyes := stmts_fresh ctx.inner yes _ am hc1 (List.cons_ne_nil _ _) hd.1
        (fun n hn => hplain n (.inl hn)) hyes
      have fno := stmts_fresh ctx.inner no _ am hc2 (List.cons_ne_nil _ _) hd.2
        (fun n hn => hplain n (.inr hn)) hno
      rw [Ctx.keys_inner] at fyes fno
      exact .branch fyes fno hrest
    | none =>
      obtain ⟨-, h1⟩ := Clean.bind (steady_expectClass _ _ _ _) (fun _ =>
        steady_bind (steady_stmts _ _) fun _ => steady_pure _) h
      have hyes := (Clean.bind (steady_stmts _ _) (fun _ => steady_pure _) h1).1
      have hc1 := (steady_expectClass ctx cnd boolClass "if condition" c).symbols hc
      have fyes := stmts_fresh ctx.inner yes _ am hc1 (List.cons_ne_nil _ _) hd.1
        (fun n hn => hplain n (.inl hn)) hyes
      rw [Ctx.keys_inner] at fyes
      exact .branch fyes .nil hrest
  all_goals
    exact fresh_of_returns (fun _ _ _ _ _ h => by cases h) (fun _ _ _ _ h => by cases h) hrest

/-- A clean check of a block of plain declarations, in a context with a scope, shows that each
declaration is fresh where it stands. -/
theorem stmts_fresh (ctx : Ctx) (ss : List Stmt) (c : Checker) (am : Bool)
    (hc : c.globals.symbols = G) (hfr : ctx.frames ≠ []) (hd : Stmt.blockDeclaresSimply ss = true)
    (hplain : ∀ n ∈ Block.declared ss, '.' ∉ n.toList) (h : Clean (stmts ctx ss) c) :
    Block.Fresh G (ctx.keys G am) ss := by
  cases ss with
  | nil => exact .nil
  | cons s rest =>
    simp only [Stmt.blockDeclaresSimply, Bool.and_eq_true] at hd
    simp only [Block.declared, List.mem_append] at hplain
    unfold stmts at h
    obtain ⟨hs, h1⟩ := Clean.bind (steady_stmt ctx s) (fun ctx' => by
      cases s.ends
      · exact steady_stmts ctx' rest
      · cases rest with
        | nil => exact steady_pure _
        | cons r tail => exact steady_fault _ _) h
    refine stmt_fresh ctx s c am hc hfr hd.1 (fun n hn => hplain n (.inl hn)) hs rest ?_
    -- nothing follows a statement that ends its block, so the rest is checked after it
    cases hend : s.ends
    · rw [hend] at h1
      exact stmts_fresh _ rest _ am ((steady_stmt ctx s c).symbols hc)
        (stmt_keeps_scope hfr s hd.1 c) hd.2 (fun n hn => hplain n (.inr hn)) h1
    · cases rest with
      | nil => exact .nil
      | cons r tail =>
        rw [hend] at h1
        exact absurd h1 not_clean_fault

end

theorem action_block_clean (hG : GlobalKinds G) {frame : Frame} {stateful : Bool}
    {body : List Stmt} {c : Checker} (hc : c.globals.symbols = G)
    (hd : Stmt.blockDeclaresSimply body = true) (hplain : ∀ n ∈ Block.declared body, '.' ∉ n.toList)
    (h : Clean (block { frames := [frame], inAction := true, stateful } body) c) {X : List String}
    (hX : ∀ k ∈ X, stateful = true ∧ k ∈ (G.filter (·.kind == .state)).map ("state." ++ ·.name)) :
    Block.Clean X body := by
  unfold block at h
  -- the flag of the amount decides nothing here: take the one the run leaves
  obtain ⟨am, hat⟩ : ∃ am, CleanAt am (stmts _ body) c := ⟨_, h, id⟩
  have hres := stmts_resolves hG _ body c am hc hd hat
  have hfresh := stmts_fresh _ body c am hc (List.cons_ne_nil _ _) hd hplain h
  refine hres.clean hfresh fun k hk => ?_
  obtain ⟨hst, hk⟩ := hX k hk
  simp only [Ctx.keys, Ctx.inner, List.mem_append, hst]
  exact .inr (.inr (by simpa using hk))

/-- What a clean check of an action's body shows, among the coin's names `G`: a body that
declares only plain names is clean at any keys of the state fields its exit reads in a stateful
action. -/
def BodyClean (G : List Symbol) (i : ActionInfo) : Prop :=
  GlobalKinds G → Stmt.blockDeclaresSimply i.action.body = true →
    (∀ n ∈ Block.declared i.action.body, '.' ∉ n.toList) →
    ∀ X : List String, (∀ k ∈ X, i.stateful = true ∧
      k ∈ (G.filter (·.kind == .state)).map ("state." ++ ·.name)) → Block.Clean X i.action.body

/-- Every action recorded, other than those named `n`, has what a clean check of its body
shows. -/
def BodiesCleanBut (n : Option String) (c : Checker) : Prop :=
  ∀ i ∈ c.actions, some i.action.name ≠ n → BodyClean c.globals.symbols i

/-- An action recorded after `putAction info` is `info`, or was recorded before under another
name. -/
theorem mem_putAction {info i : ActionInfo} {c : Checker}
    (hi : i ∈ ((putAction info).run c).2.actions) :
    i = info ∨ (i ∈ c.actions ∧ i.action.name ≠ info.action.name) := by
  rw [putAction_run] at hi
  dsimp only at hi
  split at hi
  · obtain ⟨j, hj, rfl⟩ := List.mem_map.mp hi
    by_cases hjn : (j.action.name == info.action.name) = true
    · exact .inl (if_pos hjn)
    · rw [if_neg hjn]
      exact .inr ⟨hj, by simpa using hjn⟩
  · rename_i hany
    rcases List.mem_append.mp hi with hi | hi
    · exact .inr ⟨hi, fun hn => hany (List.any_eq_true.mpr ⟨i, hi, by simp [hn]⟩)⟩
    · exact .inl (List.mem_singleton.mp hi)

theorem Steady.ensures_bodiesClean {α : Type} {n : Option String} {x : CheckM α} (h : Steady x) :
    Ensures (BodiesCleanBut n) (fun _ => BodiesCleanBut n) x :=
  ensures_of_steady h fun c hc _ i hi hn => by
    rw [(h c).globals]
    exact hc i ((h c).actions ▸ hi) hn

theorem putAction_ensures {info : ActionInfo} {n : Option String} {P : Checker → Prop}
    (hP : ∀ c, P c → BodiesCleanBut n c ∧ (some info.action.name ≠ n → BodyClean c.globals.symbols info)) :
    Ensures P (fun _ c => ∀ i ∈ c.actions, i.action.name ≠ info.action.name → some i.action.name ≠ n →
      BodyClean c.globals.symbols i) (putAction info) := by
  refine ⟨fun c => (quietly_putAction info c).faults, fun c hc _ i hi hne hn => ?_⟩
  rcases mem_putAction hi with rfl | ⟨hi, -⟩
  · exact absurd rfl hne
  · exact (hP c hc).1 i hi hn

theorem Steady.ensures_result {α : Type} {n : Option String} {Q : α → Prop} {x : CheckM α}
    (h : Steady x) (hq : Records (fun _ => True) Q x) :
    Ensures (BodiesCleanBut n) (fun r c => Q r ∧ BodiesCleanBut n c) x :=
  ⟨h.grows, fun c hc hx => ⟨(hq c fun _ _ => trivial).1, h.ensures_bodiesClean.2 c hc hx⟩⟩

theorem function_ensures_bodiesClean (f : FunctionDecl) :
    Ensures (BodiesCleanBut none) (fun _ => BodiesCleanBut none) (function f) := by
  refine ⟨fun c => (function_keeps f c).2.1, fun c hc _ i hi hn => ?_⟩
  obtain ⟨hglobals, -, hactions, -⟩ := function_keeps f c
  rw [hglobals]
  exact hc i (hactions ▸ hi) hn

/-- Checking an action keeps the body of every action recorded clean, its own included: it is
recorded before its body is checked, left out while the body is, and recorded again once the
check of its body is clean. -/
theorem action_ensures_bodiesClean (a : Action) :
    Ensures (BodiesCleanBut none) (fun _ => BodiesCleanBut none) (action a) := by
  unfold action
  refine ensures_bind (steady_declareParams _ _).ensures_bodiesClean fun frame => ?_
  dsimp only
  refine ensures_bind ((putAction_ensures (n := some a.name) fun c hc =>
    ⟨fun i hi _ => hc i hi (by simp), fun h => absurd rfl h⟩).mono fun _ c hc i hi hn =>
      hc i hi (fun he => hn (by rw [he])) hn) fun _ => ?_
  refine ensures_bind steady_get.ensures_bodiesClean fun _ => ?_
  -- the decorators change what is known of the action, never which action it is
  refine ensures_bind (Steady.ensures_result (Q := fun info : ActionInfo => info.action = a)
    (steady_forIn (fun d info => ?_) _ _)
    (records_forIn _ _ (fun d _ info hi => ?_) rfl)) fun info => ?_
  · split
    · exact steady_guard _ _ _ fun _ => steady_guard _ _ _ fun _ => steady_pure _
    · split
      · exact steady_bind (steady_access d) fun _ => steady_pure _
      · split
        · exact steady_bind (steady_fault _ _) fun _ => steady_pure _
        · exact steady_bind (steady_fault _ _) fun _ => steady_pure _
  · split
    · exact records_guard _ _ _ fun _ => records_guard _ _ _ fun _ => records_pure hi
    · split
      · exact records_seq (steady_access d) fun _ => records_pure hi
      · split
        · exact records_seq (steady_fault _ _) fun _ => records_pure hi
        · exact records_seq (steady_fault _ _) fun _ => records_pure hi
  refine ensures_bind (Q := fun _ c => BodiesCleanBut none c)
    (R := fun _ c => info.action = a ∧ BodiesCleanBut (some a.name) c)
    ⟨fun _ => Nat.le_refl _, fun c hc _ => hc⟩ fun _ => ?_
  refine ensures_bind (R := fun _ c => info.action = a ∧ BodiesCleanBut (some a.name) c ∧
      BodyClean c.globals.symbols info)
    (ensures_of_grows (steady_stmts _ _).grows fun c ⟨hinfo, hc⟩ hclean =>
      ⟨hinfo, (steady_stmts _ _).ensures_bodiesClean.2 c hc hclean, ?_⟩) fun _ => ?_
  · intro hG hd hplain X hX
    have hk : ((block { frames := [frame], inAction := true, stateful := info.stateful }
        a.body).run c).2.globals = c.globals := ((steady_stmts _ _) c).globals
    rw [hk] at hG hX
    rw [hinfo] at hd hplain ⊢
    exact action_block_clean hG rfl hd hplain hclean hX
  refine ensures_bind ((ensures_get).mono fun _ _ h => h.2) fun c₁ => ?_
  refine ⟨fun c => (quietly_putAction _ c).faults, fun c ⟨hinfo, hc, hbody⟩ _ i hi _ => ?_⟩
  rcases mem_putAction hi with rfl | ⟨hi, hne⟩
  · exact hbody
  · exact hc i hi (by simpa [hinfo] using hne)

end Check

/-- Every action the check of an accepted coin records has what a clean check of its body
shows. -/
theorem analyze_bodies_clean {coin : CoinDecl} {codec : AddressCodec} {A : Analysis}
    (h : analyze coin codec = .ok A) : ∀ i ∈ A.actions, Check.BodyClean A.globals i := by
  unfold analyze at h
  dsimp only at h
  split at h
  · rename_i hclean
    cases h
    refine fun i hi => (?_ : Check.Ensures (fun c => c.actions = [])
      (fun _ => Check.BodiesCleanBut none) _).2 _ rfl ?_ i hi (by simp)
    · -- the declarations record no action
      refine Check.ensures_bind (Check.ensures_of_grows (Q := fun _ => Check.BodiesCleanBut none)
        (Check.declareGlobals_ensures coin).1 fun c hc _ i hi => ?_) fun _ => ?_
      · exact ((Check.records_declareGlobals (R := fun _ => False) c
          (by rw [hc]; exact fun _ h => absurd h List.not_mem_nil)).2 i hi).elim
      refine Check.ensures_bind Check.steady_coinDecorators.ensures_bodiesClean fun _ =>
        Check.ensures_bind Check.steady_spendPath.ensures_bodiesClean fun _ => ?_
      refine Check.ensures_bind (Check.ensures_forIn (fun _ => Check.BodiesCleanBut none)
        (fun _ f => Check.ensures_bind (Check.function_ensures_bodiesClean f) fun _ =>
          (Check.ensures_pure _).mono fun _ _ hc => hc) _ []) fun _ => ?_
      refine Check.ensures_bind (Check.ensures_forIn (fun _ => Check.BodiesCleanBut none)
        (fun _ a => Check.ensures_bind (Check.action_ensures_bodiesClean a) fun _ =>
          (Check.ensures_pure _).mono fun _ _ hc => hc) _ []) fun _ => ?_
      exact Check.steady_resolveIncludes.ensures_bodiesClean
    · show _ = 0
      exact List.length_eq_zero_iff.mpr (List.isEmpty_iff.mp hclean)
  · cases h

theorem analyze_globalKinds {coin : CoinDecl} {codec : AddressCodec} {A : Analysis}
    (h : analyze coin codec = .ok A) : GlobalKinds A.globals := by
  intro s hs
  have he : s.entry ∈ coin.entries := (analyze_declared h).1 ▸ List.mem_map_of_mem hs
  simp only [CoinDecl.entries, List.mem_append, List.mem_map, Symbol.entry, Prod.mk.injEq] at he
  rcases he with ((((⟨_, _, _, hk, _⟩ | ⟨_, _, _, hk, _⟩) | ⟨_, _, _, hk, _⟩) | ⟨_, _, _, hk, _⟩) |
    ⟨_, _, _, hk, _⟩) <;> rw [← hk] <;> decide

theorem analyze_stateField {coin : CoinDecl} {codec : AddressCodec} {A : Analysis}
    (h : analyze coin codec = .ok A) {v : VarDecl} (hv : v ∈ coin.stateVars) :
    ∃ s ∈ A.globals, s.kind = .state ∧ s.name = v.name := by
  have he : (v.name, SymbolKind.state, snakeCase v.name) ∈ A.globals.map Symbol.entry := by
    rw [(analyze_declared h).1]
    simp only [CoinDecl.entries, List.mem_append, List.mem_map]
    exact .inl (.inl (.inl (.inr ⟨v, hv, rfl⟩)))
  obtain ⟨s, hs, hse⟩ := List.mem_map.mp he
  simp only [Symbol.entry, Prod.mk.injEq] at hse
  exact ⟨s, hs, hse.2.1, hse.1⟩

namespace Generate

open Build

theorem mem_exitKeys_of {info : ActionInfo} {slots : List Noted} {selfHash : Noted}
    {fields : List String} {k : String}
    (hk : k ∈ exitKeys (ActionScope.of info info.signature slots selfHash fields).ctx) :
    info.stateful = true ∧ k ∈ fields.map ("state." ++ ·) := by
  cases hs : info.stateful <;>
    simp_all [exitKeys, ActionScope.of, ActionInfo.signature]

/-- The code generated for an action of a coin that the check accepts, with its bodies as the
parser writes them, emits what a spend of the action emits under every valuation `V` of its
tests: the signature its access rule asks for, the assertion of its amount, the conditions of
its statements in the order they run and, for a stateful action, the coin recreated with its
new state; and it fails exactly when that spend fails. -/
theorem accepted_action_emits {coin : CoinDecl} {codec : AddressCodec} {A : Analysis}
    (hw : coin.written = true) (ha : analyze coin codec = .ok A) {info : ActionInfo}
    (hi : info ∈ A.actions) (V : Noted → Bool) (slots : List Noted) (selfHash : Noted) {g : Gen}
    (hg : g.analysis = A) {code : Noted} {g' : Gen}
    (hgen : (actionBody info info.signature slots selfHash).run g = .ok (code, g')) :
    ∃ o g'', (runAction V info info.signature slots selfHash).run g = .ok (o, g'') ∧
      code.emits V = o := by
  have hbody : Stmt.blockWritten info.action.body = true := by
    simp only [CoinDecl.written, Bool.and_eq_true, List.all_eq_true] at hw
    exact hw.2 _ (analyze_actions ha info hi)
  refine actionBody_emits V info info.signature slots selfHash ?_ hgen
  refine analyze_bodies_clean ha info hi (analyze_globalKinds ha)
    (Stmt.blockDeclaresSimply_of_written hbody)
    (fun n hn => (Block.declared_plain hbody n hn).no_dot) _ fun k hk => ?_
  obtain ⟨hst, hk⟩ := mem_exitKeys_of hk
  rw [hg, analyze_coin ha, List.map_map] at hk
  obtain ⟨v, hv, rfl⟩ := List.mem_map.mp hk
  obtain ⟨s, hs, hkind, hname⟩ := analyze_stateField ha hv
  refine ⟨hst, List.mem_map.mpr ⟨s, List.mem_filter.mpr ⟨hs, by simp [hkind]⟩, ?_⟩⟩
  simp [hname]

/-- An action that tests its argument, declares a name in an arm merged into what follows, and
adds to a field of the state. -/
def bumpAction : Action where
  name := "bump"
  params := [{ name := "n", type := .named "int", pos := ⟨4, 15⟩ }]
  body := [
    .branch (.binary ">" (.ident "n" ⟨5, 9⟩) (.lit (.int 1) ⟨5, 13⟩) ⟨5, 11⟩)
      [.assign (.ident "m" ⟨5, 24⟩) "=" (.binary "+" (.ident "n" ⟨5, 28⟩) (.lit (.int 1) ⟨5, 32⟩)
          ⟨5, 30⟩) ⟨5, 20⟩ (some (.named "int")),
        .require (.binary ">" (.ident "m" ⟨5, 43⟩) (.lit (.int 2) ⟨5, 47⟩) ⟨5, 45⟩) none ⟨5, 35⟩]
      none ⟨5, 5⟩,
    .assign (.member (.ident "state" ⟨6, 5⟩) "count" ⟨6, 10⟩) "+=" (.ident "n" ⟨6, 20⟩) ⟨6, 5⟩ none]
  decorators := [{ name := "stateful", args := [], pos := ⟨3, 3⟩ }]
  pos := ⟨4, 3⟩

/-- A coin with one field of state and the action `bumpAction`. -/
def tallyCoin : CoinDecl where
  name := "Tally"
  storageVars := []
  stateVars := [{ name := "count", type := .named "int", init := none, pos := ⟨2, 3⟩ }]
  consts := []
  functions := []
  actions := [bumpAction]
  events := []
  decorators := []
  includes := []
  pos := ⟨1, 1⟩

theorem accepted_action_emits_tally : ∃ A info code g', tallyCoin.written = true ∧
    analyze tallyCoin = .ok A ∧ info ∈ A.actions ∧
    (actionBody info info.signature [sym "n", sym "my_amount", sym "state"] (sym "SELF")).run
      { analysis := A, codec := {}, maxDepth := .whole 500 } = .ok (code, g') ∧
    ∃ o g'', (runAction (fun _ => true) info info.signature [sym "n", sym "my_amount", sym "state"]
      (sym "SELF")).run { analysis := A, codec := {}, maxDepth := .whole 500 } = .ok (o, g'') ∧
      code.emits (fun _ => true) = o := by
  have hw : tallyCoin.written = true := by decide +kernel
  have hok : ((analyze tallyCoin).toOption.bind fun A => A.actions.head?.bind fun info =>
      ((actionBody info info.signature [sym "n", sym "my_amount", sym "state"] (sym "SELF")).run
        { analysis := A, codec := {}, maxDepth := .whole 500 }).toOption.map fun _ => ()) =
      some () := by
    decide +kernel
  cases ha : analyze tallyCoin with
  | error e => rw [ha] at hok; cases hok
  | ok A =>
    rw [ha] at hok
    cases hi : A.actions with
    | nil => simp [hi, Except.toOption] at hok
    | cons info rest =>
      have hmem : info ∈ A.actions := hi ▸ List.mem_cons_self
      cases hgen : (actionBody info info.signature [sym "n", sym "my_amount", sym "state"]
          (sym "SELF")).run { analysis := A, codec := {}, maxDepth := .whole 500 } with
      | error e => simp [hi, hgen, Except.toOption] at hok
      | ok p =>
        exact ⟨A, info, p.1, p.2, hw, rfl, hmem, hgen,
          accepted_action_emits hw ha hmem _ _ _ rfl hgen⟩

end Generate

end PuzzleKit.Script
