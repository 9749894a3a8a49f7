import PuzzleKit.Proofs.Resolved
import PuzzleKit.Proofs.Readable
import Mathlib

/-!
# Lowering finds every name

Code generation for a block whose names resolve (`Block.Resolves`) in an environment that binds
the keys it relies on never fails to find a name, a function, an operator or a condition: it
either gives code or stops at the limit on nested `if`s. This holds for both ways an `if` is
lowered, with the statements after it carried into each arm or with the arms merged, and for
the coin's exit after the last statement of a stateful action.

A generation step is `Tame` when it keeps the checked coin and the depth limit, its result
satisfies a postcondition, and the only failure it can raise is a nesting fault. Steps compose
as the `do` blocks of the generator do. The code a tame step gives is readable
(`Noted.Readable`) when the values of its environment are, so that building a program from it
reads its symbols back.
-/

namespace PuzzleKit

/-- A limit that is a number, so that comparing a count with it cannot fail. -/
def Bound.Numeric (b : Bound) : Prop := ∀ t, b ≠ .other t

theorem Bound.levelsBelow_ok {b : Bound} (hb : b.Numeric) (cap : Nat) :
    ∃ n, b.levelsBelow cap = .ok n := by
  cases b with
  | other t => exact absurd rfl (hb t)
  | flag => exact ⟨_, rfl⟩
  | whole => exact ⟨_, rfl⟩
  | real => exact ⟨_, rfl⟩

theorem Bound.exceededBy_ok {b : Bound} (hb : b.Numeric) (n : Int) :
    ∃ x, b.exceededBy n = .ok x := by
  cases b with
  | other t => exact absurd rfl (hb t)
  | flag => exact ⟨_, rfl⟩
  | whole => exact ⟨_, rfl⟩
  | real => exact ⟨_, rfl⟩

/-- The failures of the nesting limits: too many levels of `if` to lower, a generated program
that nests deeper than the limit, and a layout that nests deeper than its limit. -/
inductive NestingFault : Failure → Prop
  | lowering (t : String) :
      NestingFault ⟨.generation, "if statements nest more than " ++ t ++ " deep", none, []⟩
  | program (d : Nat) (t : String) :
      NestingFault ⟨.generation, "generated program nests " ++ toString d ++ " deep, more than " ++
        t, none, []⟩
  | layout (t : String) : NestingFault (.generation ("expression nests deeper than " ++ t ++ " levels"))

namespace Script

open Build

/-- The keys an environment binds. -/
def Env.Binds (env : Env) (K : List String) : Prop := ∀ k ∈ K, (env.lookup k).isSome

theorem Env.lookup_filter_ne (env : Env) {k j : String} (hj : j ≠ k) :
    (env.filter (·.1 != k)).lookup j = env.lookup j := by
  induction env with
  | nil => rfl
  | cons p ps ih =>
    obtain ⟨a, w⟩ := p
    by_cases hja : j = a
    · subst hja
      have hk : (j != k) = true := by simpa using hj
      simp [hk, List.lookup]
    · have hja' : (j == a) = false := by simpa using hja
      by_cases hak : a = k
      · subst hak
        simp [List.lookup, hja', ih]
      · have hak' : (a != k) = true := by simpa using hak
        simp [hak', List.lookup, hja', ih]

theorem Env.lookup_bind (env : Env) (k j : String) (v : Noted) :
    (env.bind k v).lookup j = if j = k then some v else env.lookup j := by
  unfold Env.bind
  by_cases hj : j = k
  · subst hj
    simp [List.lookup]
  · have hj' : (j == k) = false := by simpa using hj
    simp only [List.lookup, hj', hj, if_false]
    exact env.lookup_filter_ne hj

theorem Env.Binds.mono {env : Env} {K K' : List String} (h : env.Binds K) (hK : K' ⊆ K) :
    env.Binds K' := fun k hk => h k (hK hk)

theorem Env.Binds.bind {env : Env} {K : List String} (h : env.Binds K) (k : String) (v : Noted) :
    (env.bind k v).Binds (k :: K) := by
  intro j hj
  rw [Env.lookup_bind]
  by_cases hjk : j = k
  · simp [hjk]
  · simpa [hjk] using h j (List.mem_of_ne_of_mem hjk hj)

/-- An environment whose values are readable code. -/
def Env.Readable (env : Env) : Prop := ∀ kv ∈ env, kv.2.Readable

theorem Env.Readable.lookup {env : Env} (h : env.Readable) {k : String} {v : Noted}
    (hv : env.lookup k = some v) : v.Readable := by
  induction env with
  | nil => cases hv
  | cons p ps ih =>
    obtain ⟨a, w⟩ := p
    by_cases hka : k = a
    · subst hka
      simp only [List.lookup, beq_self_eq_true, Option.some.injEq] at hv
      subst hv
      exact h _ List.mem_cons_self
    · have hka' : (k == a) = false := by simpa using hka
      simp only [List.lookup, hka'] at hv
      exact ih (fun kv hkv => h kv (List.mem_cons_of_mem _ hkv)) hv

theorem Env.Readable.bind {env : Env} (h : env.Readable) (k : String) {v : Noted}
    (hv : v.Readable) : (env.bind k v).Readable := by
  intro kv hkv
  rcases List.mem_cons.mp hkv with rfl | hkv
  · exact hv
  · exact h kv (List.mem_filter.mp hkv).1

/-- The code a context carries into a block: the signed message, the coin's own puzzle hash
and its amount. -/
def Lowering.Readable (ctx : Lowering) : Prop :=
  ctx.message.Readable ∧ ctx.selfHash.Readable ∧ ctx.amount.Readable

/-- A step of a block whose code is readable. -/
def Piece.Readable : Piece → Prop
  | .cons c => c.Readable
  | .merge n => n.Readable
  | .require c _ => c.Readable

theorem Piece.readable_apply {p : Piece} (hp : p.Readable) {rest : Noted}
    (hr : rest.Readable) : (p.apply rest).Readable := by
  cases p with
  | cons c => exact Build.readable_consCondition hp hr
  | merge n =>
    refine Build.readable_call _ fun x hx => ?_
    simp only [List.mem_cons, List.not_mem_nil, or_false] at hx
    rcases hx with rfl | rfl <;> assumption
  | require c m => exact Build.readable_ifNode hp hr (Build.readable_failNode m)

theorem readable_literalCode (codec : AddressCodec) (l : Literal) :
    (literalCode codec l).Readable := by
  cases l with
  | int n => exact Build.readable_int n
  | bool b =>
    simp only [literalCode]
    split
    · exact Noted.readable_one
    · exact Noted.readable_nil
  | hex b => exact Noted.readable_atom _ (by decide)
  | string s =>
    simp only [literalCode]
    split
    · exact Noted.readable_atom _ (by decide)
    · exact Build.readable_str s

theorem readable_exprOpBuild (o : ExprOp) {e : Noted} {os : List Noted} (he : e.Readable)
    (hos : ∀ x ∈ os, x.Readable) : (o.build e os).Readable := by
  have ho : (os.headD Noted.nil).Readable := by
    cases os with
    | nil => exact Noted.readable_nil
    | cons x xs => exact hos x List.mem_cons_self
  have hall : ∀ x ∈ e :: os, x.Readable := fun x hx => by
    rcases List.mem_cons.mp hx with rfl | hx
    · exact he
    · exact hos x hx
  have hpair : ∀ a b : Noted, a.Readable → b.Readable → ∀ x ∈ [a, b], x.Readable :=
    fun a b ha hb x hx => by
      simp only [List.mem_cons, List.not_mem_nil, or_false] at hx
      rcases hx with rfl | rfl <;> assumption
  have hone : ∀ a : Noted, a.Readable → ∀ x ∈ [a], x.Readable := fun a ha x hx => by
    rw [List.mem_singleton.mp hx]
    exact ha
  cases o <;> simp only [ExprOp.build]
  all_goals first
    | exact Build.readable_call _ hall
    | exact Build.readable_call _ (hone _ (Build.readable_call _ (hpair _ _ he ho)))
    | exact Build.readable_call _ (hone _ (Build.readable_call _ (hpair _ _ ho he)))
    | exact Build.readable_call _ (hpair _ _ ho he)
    | exact Build.readable_call _ (hone _ he)

namespace Generate

section Tame

variable {A : Analysis} {α β : Type}

/-- A generation step for the checked coin `A`: it keeps the coin and the depth limit, its
result satisfies `Q`, and it fails only at a nesting limit. -/
def Tame (A : Analysis) (Q : α → Prop) (x : GenM α) : Prop :=
  ∀ g : Gen, g.analysis = A → g.maxDepth.Numeric →
    match x.run g with
    | .ok (a, g') => Q a ∧ g'.analysis = A ∧ g'.maxDepth = g.maxDepth
    | .error e => NestingFault e

theorem tame_pure {Q : α → Prop} {a : α} (h : Q a) : Tame A Q (pure a) :=
  fun _ hA _ => ⟨h, hA, rfl⟩

theorem tame_bind {P : α → Prop} {Q : β → Prop} {x : GenM α} {f : α → GenM β}
    (hx : Tame A P x) (hf : ∀ a, P a → Tame A Q (f a)) : Tame A Q (x >>= f) := by
  intro g hA hd
  have h := hx g hA hd
  rw [StateT.run_bind]
  cases hr : x.run g with
  | error e => rw [hr] at h; exact h
  | ok p =>
    obtain ⟨a, g'⟩ := p
    rw [hr] at h
    obtain ⟨ha, hA', hd'⟩ := h
    have h2 := hf a ha g' hA' (hd' ▸ hd)
    show match (f a).run g' with
      | .ok (b, g'') => Q b ∧ g''.analysis = A ∧ g''.maxDepth = g.maxDepth
      | .error e => NestingFault e
    cases h3 : (f a).run g' with
    | error e => rw [h3] at h2; exact h2
    | ok q =>
      rw [h3] at h2
      exact ⟨h2.1, h2.2.1, h2.2.2.trans hd'⟩

theorem tame_mono {P Q : α → Prop} {x : GenM α} (h : Tame A P x) (hPQ : ∀ a, P a → Q a) :
    Tame A Q x := by
  intro g hA hd
  have h1 := h g hA hd
  cases hr : x.run g with
  | error e => rw [hr] at h1; exact h1
  | ok p =>
    rw [hr] at h1
    exact ⟨hPQ _ h1.1, h1.2⟩

theorem tame_get : Tame A (fun g => g.analysis = A ∧ g.maxDepth.Numeric) get :=
  fun _ hA hd => ⟨⟨hA, hd⟩, hA, rfl⟩

theorem tame_modify {f : Gen → Gen} (hf : ∀ g, (f g).analysis = g.analysis ∧ (f g).maxDepth = g.maxDepth) :
    Tame A (fun _ => True) (modify f) :=
  fun g hA _ => ⟨trivial, (hf g).1.trans hA, (hf g).2⟩

theorem tame_lift {Q : α → Prop} {r : Except Failure α} (h : ∀ a, r = .ok a → Q a)
    (hr : ∀ e, r = .error e → NestingFault e) : Tame A Q (lift r) := by
  intro g hA _
  cases r with
  | ok a => exact ⟨h a rfl, hA, rfl⟩
  | error e => exact hr e rfl

theorem tame_fault_nesting (t : String) :
    Tame A Q (fault ("if statements nest more than " ++ t ++ " deep") none) :=
  fun _ _ _ => NestingFault.lowering t

theorem tame_mapM {γ : Type} (P : β → Prop) (xs : List γ) (f : γ → GenM β)
    (hf : ∀ a ∈ xs, Tame A P (f a)) : Tame A (fun ys => ∀ y ∈ ys, P y) (xs.mapM f) := by
  induction xs with
  | nil => exact tame_pure (by simp)
  | cons a as ih =>
    rw [List.mapM_cons]
    refine tame_bind (hf a List.mem_cons_self) fun b hb => ?_
    refine tame_bind (ih fun a' ha' => hf a' (List.mem_cons_of_mem _ ha')) fun bs hbs => ?_
    refine tame_pure fun y hy => ?_
    rcases List.mem_cons.mp hy with rfl | hy
    · exact hb
    · exact hbs y hy

end Tame

variable {A : Analysis} {K : List String} {env : Env}

theorem lookup_tame {k : String} (h : (env.lookup k).isSome) (hr : env.Readable) (pos : Pos) :
    Tame A Noted.Readable (lookup env k pos) := by
  obtain ⟨v, hv⟩ := Option.isSome_iff_exists.mp h
  simp only [lookup, hv]
  exact tame_pure (hr.lookup hv)

theorem isName_msg_of_state {o : Expr} (h : isName "state" o = true) : isName "msg" o = false := by
  cases o with
  | ident m _ =>
    simp only [isName, beq_iff_eq] at h ⊢
    subst h
    decide
  | _ => rfl

theorem expr_tame {e : Expr} (h : e.Resolves A.globals K) (henv : env.Binds K)
    (hr : env.Readable) : Tame A Noted.Readable (expr env e) := by
  induction h with
  | lit =>
    simp only [expr]
    exact tame_bind tame_get fun g _ => tame_pure (readable_literalCode _ _)
  | bound hn =>
    obtain ⟨v, hv⟩ := Option.isSome_iff_exists.mp (henv _ hn)
    simp only [expr, hv]
    exact tame_pure (hr.lookup hv)
  | @global n p s hs hk =>
    simp only [expr]
    split
    · rename_i v hv
      exact tame_pure (hr.lookup hv)
    · refine tame_bind tame_get fun g ⟨hA, _⟩ => ?_
      have hs' : g.analysis.symbol? n = some s := by rw [hA]; exact hs
      have hk' : (s.kind == .storage || s.kind == .constant) = true := by
        rcases hk with hk | hk <;> simp [hk]
      simp only [hs', hk', if_true]
      exact tame_pure (Build.readable_sym _)
  | @binary op l r p hop _ _ ihl ihr =>
    obtain ⟨o, ho⟩ := Option.isSome_iff_exists.mp hop
    simp only [expr]
    refine tame_bind ihl fun a ha => tame_bind ihr fun b hb => ?_
    simp only [ho]
    exact tame_pure (readable_exprOpBuild o ha fun x hx => by
      rw [List.mem_singleton.mp hx]
      exact hb)
  | @unary op e p _ ih =>
    simp only [expr]
    refine tame_bind ih fun x hx => tame_pure ?_
    split
    · exact Build.readable_call _ fun y hy => by rw [List.mem_singleton.mp hy]; exact hx
    · refine Build.readable_call _ fun y hy => ?_
      simp only [List.mem_cons, List.not_mem_nil, or_false] at hy
      rcases hy with rfl | rfl
      · exact Build.readable_int 0
      · exact hx
  | amount ho hv =>
    simp only [expr, ho, Bool.true_and, beq_self_eq_true, if_true]
    exact lookup_tame (henv _ hv) hr _
  | field ho hf =>
    simp only [expr, isName_msg_of_state ho, Bool.false_and, Bool.false_eq_true, if_false, ho,
      if_true]
    exact lookup_tame (henv _ hf) hr _
  | entry _ hf _ ih =>
    simp only [expr, fieldOf]
    refine tame_bind (tame_modify fun _ => ⟨rfl, rfl⟩) fun _ _ => ?_
    refine tame_bind (lookup_tame (henv _ hf) hr _) fun m hm => ?_
    refine tame_bind ih fun key hkey => tame_pure (Build.readable_call _ fun y hy => ?_)
    simp only [List.mem_cons, List.not_mem_nil, or_false] at hy
    rcases hy with rfl | rfl <;> assumption
  | @call f args p hf _ ih =>
    simp only [expr]
    refine tame_bind (exprs_tame ih) fun xs hxs => ?_
    refine tame_bind tame_get fun g ⟨hA, _⟩ => ?_
    subst hA
    rcases hf with ⟨s, hs, hk⟩ | hb | hl
    · obtain ⟨n, k, t, sc, vm, b, q, o⟩ := s
      simp only at hk
      subst hk
      simp only [Analysis.symbol?, hs]
      exact tame_pure (Build.readable_call _ hxs)
    · obtain ⟨⟨op, x⟩, hb⟩ := Option.isSome_iff_exists.mp hb
      split
      · exact tame_pure (Build.readable_call _ hxs)
      · simp only [hb]
        exact tame_pure (Build.readable_call _ hxs)
    · obtain ⟨⟨vm, path⟩, hl⟩ := Option.isSome_iff_exists.mp hl
      split
      · exact tame_pure (Build.readable_call _ hxs)
      · split
        · exact tame_pure (Build.readable_call _ hxs)
        · simp only [hl]
          exact tame_pure (Build.readable_call _ hxs)
where
  exprs_tame {args : List Expr} (ih : ∀ a ∈ args, Tame A Noted.Readable (expr env a)) :
      Tame A (fun xs => ∀ x ∈ xs, x.Readable) (exprs env args) := by
    induction args with
    | nil =>
      simp only [exprs]
      exact tame_pure fun _ hx => absurd hx List.not_mem_nil
    | cons a as iha =>
      simp only [exprs]
      refine tame_bind (ih a List.mem_cons_self) fun x hx => ?_
      refine tame_bind (iha fun b hb => ih b (List.mem_cons_of_mem _ hb)) fun xs hxs => ?_
      exact tame_pure fun y hy => by
        rcases List.mem_cons.mp hy with rfl | hy
        · exact hx
        · exact hxs y hy

theorem statementCall_condition {f name : String} {cls : List String} {n : Nat}
    (h : statementCall? f = some (name, cls, n)) (xs : List Noted) :
    ∃ c, Build.condition name xs = .ok c := by
  have htable : ∀ e ∈ statementCalls, (conditionCode? e.2.1).isSome = true := by decide
  obtain ⟨e, he, heq⟩ := Option.map_eq_some_iff.mp h
  obtain ⟨code, hc⟩ := Option.isSome_iff_exists.mp (htable e (List.mem_of_find?_eq_some he))
  rw [heq] at hc
  exact ⟨_, by simp only [Build.condition, hc]; rfl⟩

theorem condition_tame {name : String} (h : (conditionCode? name).isSome = true)
    {xs : List Noted} (hxs : ∀ x ∈ xs, x.Readable) :
    Tame A Noted.Readable (lift (Build.condition name xs)) := by
  obtain ⟨code, hc⟩ := Option.isSome_iff_exists.mp h
  exact tame_lift (fun _ he => Build.readable_condition he hxs)
    (fun e he => by simp [Build.condition, hc] at he)

theorem exprs_tame {args : List Expr} (h : ∀ a ∈ args, a.Resolves A.globals K)
    (henv : env.Binds K) (hr : env.Readable) :
    Tame A (fun xs => ∀ x ∈ xs, x.Readable) (exprs env args) :=
  expr_tame.exprs_tame fun a ha => expr_tame (h a ha) henv hr

theorem conditionCall_tame {ctx : Lowering} {f : String} {args : List Expr} {q : Pos}
    (hf : (statementCall? f).isSome = true) (hargs : ∀ a ∈ args, a.Resolves A.globals K)
    (henv : env.Binds K) (hr : env.Readable) (hctx : ctx.Readable) :
    Tame A Noted.Readable (conditionCall env ctx (.call f args q)) := by
  obtain ⟨⟨name, cls, n⟩, hs⟩ := Option.isSome_iff_exists.mp hf
  simp only [conditionCall, hs]
  refine tame_bind (exprs_tame hargs henv hr) fun xs hxs => ?_
  have hargs' : ∀ x ∈ (if name == "AGG_SIG_ME" && xs.length == 1 then xs ++ [ctx.message]
      else xs), x.Readable := by
    intro x hx
    split at hx
    · rcases List.mem_append.mp hx with hx | hx
      · exact hxs x hx
      · rw [List.mem_singleton.mp hx]
        exact hctx.1
    · exact hxs x hx
  obtain ⟨c, hc⟩ := statementCall_condition hs
    (if name == "AGG_SIG_ME" && xs.length == 1 then xs ++ [ctx.message] else xs)
  exact tame_lift (fun _ he => Build.readable_condition he hargs')
    (fun e he => by rw [hc] at he; cases he)

/-- What an assignment leaves: an environment binding the keys wanted, with readable values. -/
def Bound (K : List String) (env' : Env) : Prop := env'.Binds K ∧ env'.Readable

theorem assign_ident_tame {n : String} {q pos : Pos} {op : String} {v : Expr}
    (hv : v.Resolves A.globals K) (henv : env.Binds K) (hr : env.Readable)
    (hop : op = "=" ∨ n ∈ K) : Tame A (Bound (n :: K)) (assign env (.ident n q) op v pos) := by
  simp only [assign, pure_bind]
  refine tame_bind (expr_tame hv henv hr) fun value hvalue => ?_
  by_cases heq : op = "="
  · simp only [heq, beq_self_eq_true, if_true]
    exact tame_pure ⟨henv.bind n value, hr.bind n hvalue⟩
  · have hn : n ∈ K := hop.resolve_left heq
    simp only [show (op == "=") = false from by simpa using heq, Bool.false_eq_true, if_false]
    refine tame_bind (lookup_tame (henv n hn) hr pos) fun old hold => ?_
    have hnew : (call (op.take 1).toString [old, value]).Readable := by
      refine Build.readable_call _ fun y hy => ?_
      simp only [List.mem_cons, List.not_mem_nil, or_false] at hy
      rcases hy with rfl | rfl <;> assumption
    exact tame_pure ⟨henv.bind n _, hr.bind n hnew⟩

theorem assign_field_tame {o : Expr} {prop : String} {q pos : Pos} {op : String} {v : Expr}
    (ho : isName "state" o = true) (hf : "state." ++ prop ∈ K) (hv : v.Resolves A.globals K)
    (henv : env.Binds K) (hr : env.Readable) :
    Tame A (Bound K) (assign env (.member o prop q) op v pos) := by
  simp only [assign, ho, if_true, pure_bind]
  refine tame_bind (expr_tame hv henv hr) fun value hvalue => ?_
  have hkeep : ∀ w : Noted, w.Readable → Bound K (env.bind ("state." ++ prop) w) := fun w hw =>
    ⟨(henv.bind _ w).mono (List.subset_cons_self _ _), hr.bind _ hw⟩
  by_cases heq : op = "="
  · simp only [heq, beq_self_eq_true, if_true]
    exact tame_pure (hkeep value hvalue)
  · simp only [show (op == "=") = false from by simpa using heq, Bool.false_eq_true, if_false]
    refine tame_bind (lookup_tame (henv _ hf) hr pos) fun old hold => ?_
    refine tame_pure (hkeep _ (Build.readable_call _ fun y hy => ?_))
    simp only [List.mem_cons, List.not_mem_nil, or_false] at hy
    rcases hy with rfl | rfl <;> assumption

theorem assign_entry_tame {o k : Expr} {prop : String} {q r pos : Pos} {op : String} {v : Expr}
    (hf : "state." ++ prop ∈ K) (hk : k.Resolves A.globals K) (hv : v.Resolves A.globals K)
    (henv : env.Binds K) (hr : env.Readable) :
    Tame A (Bound K) (assign env (.index (.member o prop q) k r) op v pos) := by
  simp only [assign, fieldOf]
  refine tame_bind (lookup_tame (henv _ hf) hr r) fun cur hcur => ?_
  refine tame_bind (expr_tame hk henv hr) fun key hkey => ?_
  refine tame_bind (expr_tame hv henv hr) fun value hvalue => ?_
  refine tame_bind (tame_modify fun _ => ⟨rfl, rfl⟩) fun _ _ => ?_
  have hget : (call "mapping_get" [cur, key]).Readable := by
    refine Build.readable_call _ fun y hy => ?_
    simp only [List.mem_cons, List.not_mem_nil, or_false] at hy
    rcases hy with rfl | rfl <;> assumption
  have hupd : (call (op.take 1).toString [call "mapping_get" [cur, key], value]).Readable := by
    refine Build.readable_call _ fun y hy => ?_
    simp only [List.mem_cons, List.not_mem_nil, or_false] at hy
    rcases hy with rfl | rfl <;> assumption
  refine tame_pure ⟨(henv.bind _ _).mono (List.subset_cons_self _ _), hr.bind _ ?_⟩
  refine Build.readable_call _ fun y hy => ?_
  simp only [List.mem_cons, List.not_mem_nil, or_false] at hy
  rcases hy with rfl | rfl | rfl
  · exact hcur
  · exact hkey
  · split
    · exact hvalue
    · exact hupd

/-- The keys the exit of a stateful action reads, the state fields, are bound. -/
def ExitReady (ctx : Lowering) (K : List String) : Prop :=
  ctx.function = false → ctx.stateful = true → ∀ f ∈ ctx.stateFields, "state." ++ f ∈ K

theorem ExitReady.mono {ctx : Lowering} {K K' : List String} (h : ExitReady ctx K)
    (hK : K ⊆ K') : ExitReady ctx K' := fun hf hs f hmem => hK (h hf hs f hmem)

theorem exit_tame {ctx : Lowering} (hx : ExitReady ctx K) (henv : env.Binds K)
    (hr : env.Readable) (hctx : ctx.Readable) : Tame A Noted.Readable (exit env ctx) := by
  unfold exit
  by_cases hstop : (ctx.function || !ctx.stateful) = true
  · simp only [hstop, if_true]
    exact tame_pure Noted.readable_nil
  · simp only [hstop, Bool.false_eq_true, if_false]
    have hf : ctx.function = false := by simp_all
    have hs : ctx.stateful = true := by simp_all
    refine tame_bind (tame_mapM Noted.Readable _ _ fun f hmem => ?_) fun fields hfs => ?_
    · obtain ⟨v, hv⟩ := Option.isSome_iff_exists.mp (henv _ (hx hf hs f hmem))
      simp only [hv]
      exact tame_pure (hr.lookup hv)
    have hmemo : (call "list" [call "sha256tree" [call "list" fields]]).Readable :=
      Build.readable_call _ fun y hy => by
        rw [List.mem_singleton.mp hy]
        exact Build.readable_call _ fun z hz => by
          rw [List.mem_singleton.mp hz]
          exact Build.readable_call _ hfs
    have hargs : ∀ x ∈ [ctx.selfHash, ctx.amount,
        call "list" [call "sha256tree" [call "list" fields]]], x.Readable := by
      intro x hx
      simp only [List.mem_cons, List.not_mem_nil, or_false] at hx
      rcases hx with rfl | rfl | rfl
      · exact hctx.2.1
      · exact hctx.2.2
      · exact hmemo
    exact tame_bind (condition_tame (by decide) hargs) fun c hc =>
      tame_pure (Build.readable_consCondition hc Noted.readable_nil)

/-- What a walk gives: readable steps, a readable ending if it ended, and an environment that
binds the keys wanted with readable values. -/
def Walked (K : List String) (r : List Piece × Option Noted × Env) : Prop :=
  (∀ p ∈ r.1, p.Readable) ∧ (∀ t, r.2.1 = some t → t.Readable) ∧ Bound K r.2.2

theorem steps_append {steps : List Piece} (hs : ∀ p ∈ steps, p.Readable) {p : Piece}
    (hp : p.Readable) : ∀ q ∈ steps ++ [p], q.Readable := by
  intro q hq
  rcases List.mem_append.mp hq with hq | hq
  · exact hs q hq
  · rw [List.mem_singleton.mp hq]
    exact hp

theorem walk_tame {lower : List Stmt → Env → Option Noted → GenM Noted} {ctx : Lowering}
    {stop : Option Noted} (hctx : ctx.Readable) (hstop : ∀ t, stop = some t → t.Readable)
    (hlower : ∀ K' ss' env' (stop' : Option Noted), Block.Resolves A.globals K' ss' →
      env'.Binds K' → env'.Readable → (∀ t, stop' = some t → t.Readable) →
      ExitReady ctx K' → Tame A Noted.Readable (lower ss' env' stop'))
    {ss : List Stmt} (h : Block.Resolves A.globals K ss) :
    ∀ env steps, env.Binds K → env.Readable → (∀ p ∈ steps, p.Readable) → ExitReady ctx K →
      Tame A (Walked K) (walk lower ctx stop ss env steps) := by
  induction h with
  | nil =>
    intro env steps henv hr hs _
    simp only [walk]
    exact tame_pure ⟨hs, fun _ h => (by cases h), ⟨henv, hr⟩⟩
  | sender ht ht' _ ih =>
    intro env steps henv hr hs hx
    simp only [walk, ht]
    refine tame_bind (expr_tame ht' henv hr) fun who hwho => ?_
    have hargs : ∀ x ∈ [who, ctx.message], x.Readable := by
      intro x hx'
      simp only [List.mem_cons, List.not_mem_nil, or_false] at hx'
      rcases hx' with rfl | rfl
      · exact hwho
      · exact hctx.1
    exact tame_bind (condition_tame (by decide) hargs) fun c hc =>
      ih env _ henv hr (steps_append hs hc) hx
  | require ht hc _ ih =>
    intro env steps henv hr hs hx
    simp only [walk, ht]
    exact tame_bind (expr_tame hc henv hr) fun c hc' => ih env _ henv hr (steps_append hs hc') hx
  | @send K r a m p rest hr' ha hm _ ih =>
    intro env steps henv hr hs hx
    simp only [walk]
    refine tame_bind (expr_tame hr' henv hr) fun rc hrc => ?_
    refine tame_bind (expr_tame ha henv hr) fun ac hac => ?_
    cases m with
    | none =>
      simp only [pure_bind]
      have hargs : ∀ x ∈ [rc, ac] ++ [], x.Readable := by
        intro x hx'
        simp only [List.append_nil, List.mem_cons, List.not_mem_nil, or_false] at hx'
        rcases hx' with rfl | rfl <;> assumption
      exact tame_bind (condition_tame (by decide) hargs) fun c hc =>
        ih env _ henv hr (steps_append hs hc) hx
    | some x =>
      refine tame_bind (expr_tame (hm x rfl) henv hr) fun mc hmc => ?_
      simp only [pure_bind]
      have hargs : ∀ y ∈ [rc, ac] ++ [call "list" [mc]], y.Readable := by
        intro y hy
        simp only [List.cons_append, List.nil_append, List.mem_cons, List.not_mem_nil,
          or_false] at hy
        rcases hy with rfl | rfl | rfl
        · exact hrc
        · exact hac
        · exact Build.readable_call _ fun z hz => by rw [List.mem_singleton.mp hz]; exact hmc
      exact tame_bind (condition_tame (by decide) hargs) fun c hc =>
        ih env _ henv hr (steps_append hs hc) hx
  | @emit K ev args p rest ha _ ih =>
    intro env steps henv hr hs hx
    simp only [walk]
    refine tame_bind (exprs_tame ha henv hr) fun xs hxs => ?_
    have hpayload : (call "list" (str ev :: xs)).Readable := by
      refine Build.readable_call _ fun y hy => ?_
      rcases List.mem_cons.mp hy with rfl | hy
      · exact Build.readable_str ev
      · exact hxs y hy
    have hargs : ∀ y ∈ [call "sha256tree" [call "list" (str ev :: xs)]], y.Readable :=
      fun y hy => by
        rw [List.mem_singleton.mp hy]
        exact Build.readable_call _ fun z hz => by rw [List.mem_singleton.mp hz]; exact hpayload
    exact tame_bind (condition_tame (by decide) hargs) fun c hc =>
      ih env _ henv hr (steps_append hs hc) hx
  | eval hf ha _ ih =>
    intro env steps henv hr hs hx
    simp only [walk]
    exact tame_bind (conditionCall_tame hf ha henv hr hctx) fun c hc =>
      ih env _ henv hr (steps_append hs hc) hx
  | declare hv _ ih =>
    intro env steps henv hr hs hx
    simp only [walk]
    refine tame_bind (assign_ident_tame hv henv hr (.inl rfl)) fun env' ⟨henv', hr'⟩ => ?_
    refine tame_mono (ih env' steps henv' hr' hs (hx.mono (List.subset_cons_self _ _)))
      fun r ⟨hsteps, hend, hb, hrb⟩ => ?_
    exact ⟨hsteps, hend, hb.mono (List.subset_cons_self _ _), hrb⟩
  | setLocal hn hv _ ih =>
    intro env steps henv hr hs hx
    simp only [walk]
    refine tame_bind (assign_ident_tame hv henv hr (.inr hn)) fun env' ⟨henv', hr'⟩ => ?_
    exact ih env' steps (henv'.mono (List.subset_cons_self _ _)) hr' hs hx
  | setField ho hf hv _ ih =>
    intro env steps henv hr hs hx
    simp only [walk]
    exact tame_bind (assign_field_tame ho hf hv henv hr) fun env' ⟨henv', hr'⟩ =>
      ih env' steps henv' hr' hs hx
  | setEntry _ hf hk hv _ ih =>
    intro env steps henv hr hs hx
    simp only [walk]
    exact tame_bind (assign_entry_tame hf hk hv henv hr) fun env' ⟨henv', hr'⟩ =>
      ih env' steps henv' hr' hs hx
  | @branch K c yes no p rest hc hyes hno hrest _ _ ih =>
    intro env steps henv hr hs hx
    simp only [walk]
    refine tame_bind (expr_tame hc henv hr) fun cond hcond => ?_
    split
    · -- each arm goes on with the statements after the `if`
      refine tame_bind (hlower _ _ env stop (hyes.append hrest) henv hr hstop hx) fun t ht => ?_
      refine tame_bind (hlower _ _ env stop (hno.append hrest) henv hr hstop hx) fun o ho => ?_
      exact tame_pure ⟨hs, fun u hu => (by cases hu; exact Build.readable_ifNode hcond ht ho),
        ⟨henv, hr⟩⟩
    · -- the arms end with no conditions and are merged with what follows
      have hnil : ∀ t, some Noted.nil = some t → t.Readable := fun t ht => by
        cases ht
        exact Noted.readable_nil
      refine tame_bind (hlower _ _ env _ hyes henv hr hnil hx) fun t ht => ?_
      refine tame_bind (hlower _ _ env _ hno henv hr hnil hx) fun o ho => ?_
      split
      · exact ih env steps henv hr hs hx
      · exact tame_bind (tame_modify fun _ => ⟨rfl, rfl⟩) fun _ _ =>
          ih env _ henv hr (steps_append hs (Build.readable_ifNode hcond ht ho)) hx
  | @ret K v p rest hv _ _ =>
    intro env steps henv hr hs hx
    simp only [walk]
    split
    · cases v with
      | none => exact tame_pure ⟨hs, fun t ht => (by cases ht; exact Noted.readable_nil), ⟨henv, hr⟩⟩
      | some x =>
        exact tame_bind (expr_tame (hv x rfl) henv hr) fun y hy =>
          tame_pure ⟨hs, fun t ht => (by cases ht; exact hy), ⟨henv, hr⟩⟩
    · exact tame_bind (exit_tame hx henv hr hctx) fun y hy =>
        tame_pure ⟨hs, fun t ht => (by cases ht; exact hy), ⟨henv, hr⟩⟩
  | fail _ _ =>
    intro env steps henv hr hs _
    simp only [walk]
    exact tame_pure ⟨hs, fun t ht => (by cases ht; exact Build.readable_failNode _), ⟨henv, hr⟩⟩

theorem readable_foldr_apply {steps : List Piece} (hs : ∀ p ∈ steps, p.Readable) {tail : Noted}
    (ht : tail.Readable) : (steps.foldr (fun p t => p.apply t) tail).Readable := by
  induction steps with
  | nil => exact ht
  | cons p ps ih =>
    exact Piece.readable_apply (hs p List.mem_cons_self)
      (ih fun q hq => hs q (List.mem_cons_of_mem _ hq))

theorem block_tame {ctx : Lowering} (hctx : ctx.Readable) (fuel : Nat) :
    ∀ K ss env (stop : Option Noted), Block.Resolves A.globals K ss → env.Binds K →
      env.Readable → (∀ t, stop = some t → t.Readable) → ExitReady ctx K →
      Tame A Noted.Readable (block fuel ctx stop ss env) := by
  induction fuel with
  | zero =>
    intro K ss env stop _ _ _ _ _
    simp only [block]
    exact tame_bind tame_get fun _ _ => tame_fault_nesting _
  | succ fuel ih =>
    intro K ss env stop h henv hr hstop hx
    simp only [block]
    refine tame_bind (walk_tame hctx hstop (fun K' ss' env' stop' => ih K' ss' env' stop') h env []
      henv hr (fun _ hp => absurd hp List.not_mem_nil) hx) fun r ⟨hsteps, hend, hb, hrb⟩ => ?_
    obtain ⟨steps, ended, env'⟩ := r
    cases ended with
    | some t =>
      exact tame_bind (tame_pure (hend t rfl)) fun u hu =>
        tame_pure (readable_foldr_apply hsteps hu)
    | none =>
      cases stop with
      | some e =>
        exact tame_bind (tame_pure (hstop e rfl)) fun u hu =>
          tame_pure (readable_foldr_apply hsteps hu)
      | none =>
        exact tame_bind (exit_tame hx hb hrb hctx) fun u hu =>
          tame_pure (readable_foldr_apply hsteps hu)

theorem body_tame {ctx : Lowering} {ss : List Stmt} (h : Block.Resolves A.globals K ss)
    (hb : Bound K env) (hctx : ctx.Readable) (hx : ExitReady ctx K) :
    Tame A Noted.Readable (body ctx ss env) := by
  simp only [body]
  refine tame_bind tame_get fun g ⟨_, hd⟩ => ?_
  obtain ⟨n, hn⟩ := g.maxDepth.levelsBelow_ok hd (Stmt.branchCount ss + 1)
  intro g' hA hd'
  simp only [StateT.run_bind, hn]
  exact block_tame hctx n K ss env none h hb.1 hb.2 (fun _ h => nomatch h) hx g' hA hd'

end Generate

end Script

end PuzzleKit
