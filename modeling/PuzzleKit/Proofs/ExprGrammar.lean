import PuzzleKit.Proofs.ActionNames

/-! Expressions read by the precedence grammar.

The grammar of expressions is an inductive relation between tokens and trees, one relation for
each nonterminal: five binary levels, from `||` to `* / %`, each an operand of the next level
followed by operators of its own level, folded to the left; a unary level of `!` and `-`, where
minus before an integer literal makes the negated literal; a primary with member accesses,
calls of names and indexing after it; and the primaries. At the first token of an expression
of the grammar, followed by a token that cannot continue it, `Parse.expr` returns the tree of
its derivation and stops after its last token (`expr_reads_grammar_tree`), with a budget of
eight steps a token.

Reading steps are run forward (`Runs`): a lemma for each primitive step gives its result and
the place it stops, and `runs_bind` chains them, so each case of the grammar follows the
reader's own steps. -/

namespace PuzzleKit.Script

namespace Parse

section Runs

variable {α β : Type}

/-- A reading step run on `toks` from place `i` gives `a` and stops at place `j`. -/
def Runs (x : ParseM α) (toks : Array Token) (i : Nat) (a : α) (j : Nat) : Prop :=
  (x.run toks).run i = .ok (a, j)

theorem runs_bind {x : ParseM α} {f : α → ParseM β} {toks : Array Token} {i k j : Nat} {a : α}
    {b : β} (hx : Runs x toks i a k) : Runs (x >>= f) toks i b j ↔ Runs (f a) toks k b j := by
  unfold Runs at hx ⊢
  simp only [bind, ReaderT.bind, ReaderT.run, StateT.bind, StateT.run] at hx ⊢
  rw [hx]
  rfl

theorem runs_pure {toks : Array Token} {i : Nat} {a : α} : Runs (pure a) toks i a i := rfl

theorem Runs.stop_eq {x : ParseM α} {toks : Array Token} {i j j' : Nat} {a : α}
    (h : Runs x toks i a j) (hj : j = j') : Runs x toks i a j' :=
  hj ▸ h

end Runs

/-- The tokens from place `i` on begin with `ts`. -/
def Reads (toks : Array Token) (i : Nat) (ts : List Token) : Prop :=
  ∃ rest, toks.toList.drop i = ts ++ rest

section Steps

variable {toks : Array Token} {i : Nat} {t : Token} {ts : List Token}

theorem Reads.left {xs ys : List Token} (h : Reads toks i (xs ++ ys)) : Reads toks i xs := by
  obtain ⟨rest, h⟩ := h
  exact ⟨ys ++ rest, by rw [h, List.append_assoc]⟩

theorem Reads.right {xs ys : List Token} (h : Reads toks i (xs ++ ys)) :
    Reads toks (i + xs.length) ys := by
  obtain ⟨rest, h⟩ := h
  refine ⟨rest, ?_⟩
  rw [← List.drop_drop, h, List.append_assoc, List.drop_left]

theorem Reads.tail (h : Reads toks i (t :: ts)) : Reads toks (i + 1) ts :=
  Reads.right (show Reads toks i ([t] ++ ts) from h)

theorem Reads.head (h : Reads toks i (t :: ts)) : toks[i]? = some t := by
  obtain ⟨rest, h⟩ := h
  have := congrArg (·[0]?) h
  simpa [List.getElem?_drop] using this

theorem runs_peek (h : Reads toks i (t :: ts)) : Runs (peek 0) toks i t i := by
  have hget := h.head
  have hi : i < toks.size := (Array.getElem?_eq_some_iff.mp hget).1
  unfold Runs
  rw [peek_run, Nat.add_zero, Nat.min_eq_left (by omega), Array.getD_eq_getD_getElem?, hget]
  rfl

theorem runs_advance (h : Reads toks i (t :: ts)) (ht : t.lexeme ≠ .eof) :
    Runs advance toks i t (i + 1) := by
  unfold advance
  rw [runs_bind (runs_peek h)]
  simp only [bne_iff_ne, ne_eq, ht, not_false_eq_true, if_true]
  rfl

theorem runs_check (p : Lexeme → Bool) (h : Reads toks i (t :: ts)) :
    Runs (check p) toks i (p t.lexeme) i := by
  unfold check
  rw [runs_bind (runs_peek h)]
  rfl

theorem runs_accept_true {p : Lexeme → Bool} (h : Reads toks i (t :: ts)) (hp : p t.lexeme = true)
    (ht : t.lexeme ≠ .eof) : Runs (accept p) toks i true (i + 1) := by
  unfold accept
  rw [runs_bind (runs_check p h)]
  simp only [hp, if_true]
  rw [runs_bind (runs_advance h ht)]
  rfl

theorem runs_accept_false {p : Lexeme → Bool} (h : Reads toks i (t :: ts))
    (hp : p t.lexeme = false) : Runs (accept p) toks i false i := by
  unfold accept
  rw [runs_bind (runs_check p h)]
  simp only [hp, Bool.false_eq_true, if_false]
  rfl

theorem runs_expect {p : Lexeme → Bool} (want : String) (h : Reads toks i (t :: ts))
    (hp : p t.lexeme = true) (ht : t.lexeme ≠ .eof) : Runs (expect p want) toks i t (i + 1) := by
  unfold expect
  rw [runs_bind (runs_peek h)]
  simp only [hp, if_true]
  exact runs_advance h ht

theorem runs_expectOp {s : String} {pos : Pos} (h : Reads toks i (⟨.op s, pos⟩ :: ts)) :
    Runs (expectOp s) toks i ⟨.op s, pos⟩ (i + 1) :=
  runs_expect _ h (by simp [isOp]) (by simp)

theorem runs_expectIdent {n : String} {pos : Pos} (what : String)
    (h : Reads toks i (⟨.ident n, pos⟩ :: ts)) : Runs (expectIdent what) toks i (n, pos) (i + 1) := by
  unfold expectIdent
  rw [runs_bind (runs_expect what h rfl (by simp))]
  rfl

end Steps

/-! ### The grammar -/

/-- Minus before an operand: the negated literal when the operand's tree is an integer literal,
and otherwise a unary minus. -/
def negate (e : Expr) (pos : Pos) : Expr :=
  match e with
  | .lit (.int n) _ => .lit (.int (-n)) pos
  | e => .unary "-" e pos

mutual

/-- The tokens of an expression at binding level `k` and its tree: an operand of the next
level, then operators of level `k` each with its operand, folded to the left. Level five is a
unary expression. -/
inductive Level : Nat → List Token → Expr → Prop
  | unary {ts : List Token} {e : Expr} : Unary ts e → Level 5 ts e
  | chain {k : Nat} {ts ts' : List Token} {e e' : Expr} :
      k < 5 → Level (k + 1) ts e → Chain k e ts' e' → Level k (ts ++ ts') e'

/-- Operators of level `k`, each with its operand of the next level, after a left operand
`left`, and the tree they fold it into. -/
inductive Chain : Nat → Expr → List Token → Expr → Prop
  | nil {k : Nat} {left : Expr} : Chain k left [] left
  | cons {k : Nat} {left right e : Expr} {op : String} {pos : Pos} {ts ts' : List Token} :
      atLevel k (.op op) = true → Level (k + 1) ts right →
      Chain k (.binary op left right pos) ts' e →
      Chain k left (⟨.op op, pos⟩ :: (ts ++ ts')) e

/-- A unary expression: `!` or `-` before a unary expression, or a primary with its trailers. -/
inductive Unary : List Token → Expr → Prop
  | not {pos : Pos} {ts : List Token} {e : Expr} :
      Unary ts e → Unary (⟨.op "!", pos⟩ :: ts) (.unary "!" e pos)
  | neg {pos : Pos} {ts : List Token} {e : Expr} :
      Unary ts e → Unary (⟨.op "-", pos⟩ :: ts) (negate e pos)
  | trailed {ts ts' : List Token} {e e' : Expr} :
      Primary ts e → Trailers e ts' e' → Unary (ts ++ ts') e'

/-- Member accesses, calls and indexing after an expression `e`, and the tree they make of it;
only a name is called. -/
inductive Trailers : Expr → List Token → Expr → Prop
  | nil {e : Expr} : Trailers e [] e
  | member {e e' : Expr} {pos ppos : Pos} {prop : String} {ts : List Token} :
      Trailers (.member e prop pos) ts e' →
      Trailers e (⟨.op ".", pos⟩ :: ⟨.ident prop, ppos⟩ :: ts) e'
  | call {name : String} {npos pos : Pos} {ts ts' : List Token} {args : List Expr} {e' : Expr} :
      Args ts args → Trailers (.call name args npos) ts' e' →
      Trailers (.ident name npos) (⟨.op "(", pos⟩ :: (ts ++ ts')) e'
  | index {e key e' : Expr} {pos cpos : Pos} {ts ts' : List Token} :
      Level 0 ts key → Trailers (.index e key pos) ts' e' →
      Trailers e (⟨.op "[", pos⟩ :: (ts ++ ⟨.op "]", cpos⟩ :: ts')) e'

/-- A literal, a name, `state`, or an expression in parentheses. -/
inductive Primary : List Token → Expr → Prop
  | number {n : Nat} {pos : Pos} : Primary [⟨.number n, pos⟩] (.lit (.int n) pos)
  | hex {b : List UInt8} {pos : Pos} : Primary [⟨.hex b, pos⟩] (.lit (.hex b) pos)
  | string {s : String} {pos : Pos} : Primary [⟨.string s, pos⟩] (.lit (.string s) pos)
  | trueLit {pos : Pos} : Primary [⟨.keyword "true", pos⟩] (.lit (.bool true) pos)
  | falseLit {pos : Pos} : Primary [⟨.keyword "false", pos⟩] (.lit (.bool false) pos)
  | ident {n : String} {pos : Pos} : Primary [⟨.ident n, pos⟩] (.ident n pos)
  | state {pos : Pos} : Primary [⟨.keyword "state", pos⟩] (.ident "state" pos)
  | paren {pos cpos : Pos} {ts : List Token} {e : Expr} :
      Level 0 ts e → Primary (⟨.op "(", pos⟩ :: (ts ++ [⟨.op ")", cpos⟩])) e

/-- Call arguments through the closing parenthesis: none, or some separated by commas. -/
inductive Args : List Token → List Expr → Prop
  | nil {pos : Pos} : Args [⟨.op ")", pos⟩] []
  | some {ts : List Token} {es : List Expr} : ArgsFrom ts es → Args ts es

/-- Call arguments from the first on, through the closing parenthesis. -/
inductive ArgsFrom : List Token → List Expr → Prop
  | last {ts : List Token} {e : Expr} {pos : Pos} :
      Level 0 ts e → ArgsFrom (ts ++ [⟨.op ")", pos⟩]) [e]
  | more {ts ts' : List Token} {e : Expr} {es : List Expr} {pos : Pos} :
      Level 0 ts e → ArgsFrom ts' es → ArgsFrom (ts ++ ⟨.op ",", pos⟩ :: ts') (e :: es)

end

/-- A token that ends an expression at binding level `k`: no operator of that level or a
tighter one, and no trailer. -/
def Stops (k : Nat) (l : Lexeme) : Prop :=
  (∀ j, k ≤ j → atLevel j l = false) ∧ isOp "." l = false ∧ isOp "(" l = false ∧
    isOp "[" l = false

/-- The tokens after an expression at binding level `k` begin with one that ends it. -/
def Follows (k : Nat) (rest : List Token) : Prop :=
  ∃ t rest', rest = t :: rest' ∧ Stops k t.lexeme

theorem levels_apart : ∀ k < 5, ∀ s ∈ (levels[k]?).getD [], s ≠ "." ∧ s ≠ "(" ∧ s ≠ "[" ∧
    ∀ j < 5, j ≠ k → ((levels[j]?).getD []).contains s = false := by
  decide

theorem closers_apart : ∀ j < 5, ∀ s ∈ [")", "]", ","], ((levels[j]?).getD []).contains s = false := by
  decide

theorem atLevel_of_ge {j : Nat} (hj : 5 ≤ j) (l : Lexeme) : atLevel j l = false := by
  have hnone : levels[j]? = none := List.getElem?_eq_none (by simp [levels]; omega)
  cases l <;> simp [atLevel, hnone]

theorem atLevel_true {k : Nat} {l : Lexeme} (h : atLevel k l = true) :
    k < 5 ∧ ∃ s, l = .op s ∧ s ∈ (levels[k]?).getD [] := by
  have hk : k < 5 := by
    by_contra hk
    rw [atLevel_of_ge (by omega)] at h
    cases h
  cases l with
  | op s => exact ⟨hk, s, rfl, by simpa [atLevel] using h⟩
  | _ => cases h

theorem stops_of_atLevel {k : Nat} {l : Lexeme} (h : atLevel k l = true) : Stops (k + 1) l := by
  obtain ⟨hk, s, rfl, hs⟩ := atLevel_true h
  obtain ⟨hdot, hparen, hbrack, hother⟩ := levels_apart k hk s hs
  refine ⟨fun j hj => ?_, by simp [isOp, hdot], by simp [isOp, hparen], by simp [isOp, hbrack]⟩
  by_cases hj5 : j < 5
  · simpa [atLevel] using hother j hj5 (by omega)
  · exact atLevel_of_ge (by omega) _

theorem stops_closer {k : Nat} {s : String} (hs : s ∈ [")", "]", ","]) : Stops k (.op s) := by
  refine ⟨fun j _ => ?_, ?_, ?_, ?_⟩
  · by_cases hj5 : j < 5
    · simpa [atLevel] using closers_apart j hj5 s hs
    · exact atLevel_of_ge (by omega) _
  all_goals
    simp only [List.mem_cons, List.not_mem_nil, or_false] at hs
    rcases hs with rfl | rfl | rfl <;> decide

theorem stops_eof (k : Nat) : Stops k .eof :=
  ⟨fun j _ => by cases j <;> simp [atLevel], rfl, rfl, rfl⟩

theorem follows_closer {k : Nat} (s : String) (hs : s ∈ [")", "]", ","]) (pos : Pos)
    (rest : List Token) : Follows k (⟨.op s, pos⟩ :: rest) :=
  ⟨_, _, rfl, stops_closer hs⟩

theorem Follows.mono {k k' : Nat} {rest : List Token} (h : Follows k rest) (hk : k ≤ k') :
    Follows k' rest := by
  obtain ⟨t, rest', rfl, hall, hdot, hparen, hbrack⟩ := h
  exact ⟨t, rest', rfl, fun j hj => hall j (by omega), hdot, hparen, hbrack⟩

theorem chain_follows {k : Nat} {left e : Expr} {ts rest : List Token} (h : Chain k left ts e)
    (hf : Follows k rest) : Follows (k + 1) (ts ++ rest) := by
  cases h with
  | nil => exact hf.mono (Nat.le_succ k)
  | cons hop _ _ => exact ⟨_, _, rfl, stops_of_atLevel hop⟩

theorem primary_head {ts : List Token} {e : Expr} (h : Primary ts e) :
    ∃ t rest, ts = t :: rest ∧ isOp "!" t.lexeme = false ∧ isOp "-" t.lexeme = false ∧
      isOp ")" t.lexeme = false := by
  cases h <;> exact ⟨_, _, rfl, by simp [isOp], by simp [isOp], by simp [isOp]⟩

theorem unary_head {ts : List Token} {e : Expr} (h : Unary ts e) :
    ∃ t rest, ts = t :: rest ∧ isOp ")" t.lexeme = false := by
  cases h with
  | not _ => exact ⟨_, _, rfl, by simp [isOp]⟩
  | neg _ => exact ⟨_, _, rfl, by simp [isOp]⟩
  | trailed hp _ =>
    obtain ⟨t, rest, rfl, -, -, hclose⟩ := primary_head hp
    exact ⟨t, rest ++ _, rfl, hclose⟩

theorem level_head {k : Nat} {ts : List Token} {e : Expr} :
    Level k ts e → ∃ t rest, ts = t :: rest ∧ isOp ")" t.lexeme = false
  | .unary hu => unary_head hu
  | .chain _ hl _ => by
    obtain ⟨t, rest, rfl, hclose⟩ := level_head hl
    exact ⟨t, rest ++ _, rfl, hclose⟩

theorem argsFrom_head {ts : List Token} {es : List Expr} :
    ArgsFrom ts es → ∃ t rest, ts = t :: rest ∧ isOp ")" t.lexeme = false
  | .last hl | .more hl _ => by
    obtain ⟨t, rest, rfl, hclose⟩ := level_head hl
    exact ⟨t, _, rfl, hclose⟩

theorem Level.length_pos {k : Nat} {ts : List Token} {e : Expr} (h : Level k ts e) :
    0 < ts.length := by
  obtain ⟨t, rest, rfl, -⟩ := level_head h
  simp

theorem negate_of_ne {e : Expr} {pos : Pos} (h : ∀ n p, e ≠ .lit (.int n) p) :
    negate e pos = .unary "-" e pos := by
  unfold negate
  split
  · exact absurd rfl (h _ _)
  · rfl

/-! ### Reading what the grammar derives -/

mutual

theorem level_runs {toks : Array Token} {k : Nat} {ts : List Token} {e : Expr} {i fuel : Nat}
    {rest : List Token} :
    Level k ts e → Reads toks i (ts ++ rest) → Follows k rest → 8 * ts.length ≤ fuel + k →
      Runs (expr fuel k) toks i e (i + ts.length)
  | .unary hu, hr, hf, hfuel => by
    have hpos : 0 < ts.length := by
      obtain ⟨t, ts', hts, -⟩ := unary_head hu
      simp [hts]
    obtain ⟨f, rfl⟩ := Nat.exists_eq_add_one.mpr (show 0 < fuel by omega)
    rw [expr, if_pos (by decide)]
    exact unary_runs hu hr hf (by omega)
  | @Level.chain _ ts₁ ts₂ e₁ _ hk hl hc, hr, hf, hfuel => by
    have hpos := hl.length_pos
    simp only [List.length_append] at hfuel
    obtain ⟨f, rfl⟩ := Nat.exists_eq_add_one.mpr (show 0 < fuel by omega)
    rw [expr, if_neg (by simp [levels]; omega)]
    rw [List.append_assoc] at hr
    rw [runs_bind (level_runs hl hr (chain_follows hc hf) (by omega))]
    rw [List.length_append, ← Nat.add_assoc]
    exact chain_runs hc hr.right hf (by omega)

theorem chain_runs {toks : Array Token} {k : Nat} {left e : Expr} {ts : List Token}
    {i fuel : Nat} {rest : List Token} :
    Chain k left ts e → Reads toks i (ts ++ rest) → Follows k rest → 8 * ts.length + 1 ≤ fuel →
      Runs (binaryRest fuel k left) toks i e (i + ts.length)
  | .nil, hr, hf, hfuel => by
    obtain ⟨t, rest', rfl, hstop, -⟩ := hf
    obtain ⟨f, rfl⟩ := Nat.exists_eq_add_one.mpr (show 0 < fuel by omega)
    rw [binaryRest, runs_bind (runs_peek hr), if_neg (by simp [hstop k (Nat.le_refl k)])]
    exact runs_pure
  | @Chain.cons _ _ right _ op pos ts₁ ts₂ hop hl hc, hr, hf, hfuel => by
    simp only [List.length_cons, List.length_append] at hfuel
    obtain ⟨f, rfl⟩ := Nat.exists_eq_add_one.mpr (show 0 < fuel by omega)
    simp only [List.cons_append, List.append_assoc] at hr
    rw [binaryRest, runs_bind (runs_peek hr), if_pos hop, runs_bind (runs_advance hr (by simp))]
    have hr₁ := hr.tail
    rw [runs_bind (level_runs hl hr₁ (chain_follows hc hf) (by omega))]
    exact (chain_runs hc hr₁.right hf (by omega)).stop_eq (by simp; omega)

theorem unary_runs {toks : Array Token} {ts : List Token} {e : Expr} {i fuel : Nat}
    {rest : List Token} :
    Unary ts e → Reads toks i (ts ++ rest) → Follows 5 rest → 8 * ts.length ≤ fuel + 6 →
      Runs (unary fuel) toks i e (i + ts.length)
  | @Unary.not pos ts₁ e₁ hu, hr, hf, hfuel => by
    simp only [List.length_cons] at hfuel
    obtain ⟨f, rfl⟩ := Nat.exists_eq_add_one.mpr (show 0 < fuel by omega)
    rw [List.cons_append] at hr
    rw [unary, runs_bind (runs_peek hr), if_pos (by simp [isOp]),
      runs_bind (runs_advance hr (by simp)), runs_bind (unary_runs hu hr.tail hf (by omega))]
    simp only [isOp]
    exact runs_pure.stop_eq (by simp; omega)
  | @Unary.neg pos ts₁ e₁ hu, hr, hf, hfuel => by
    simp only [List.length_cons] at hfuel
    obtain ⟨f, rfl⟩ := Nat.exists_eq_add_one.mpr (show 0 < fuel by omega)
    rw [List.cons_append] at hr
    rw [unary, runs_bind (runs_peek hr), if_pos (by simp [isOp]),
      runs_bind (runs_advance hr (by simp)), runs_bind (unary_runs hu hr.tail hf (by omega))]
    simp [isOp]
    rw [show i + (ts₁.length + 1) = i + 1 + ts₁.length by omega]
    split
    · exact runs_pure
    · rename_i hne
      rw [negate_of_ne fun n p => hne n p rfl]
      exact runs_pure
  | @Unary.trailed ts₁ ts₂ e₁ _ hp htr, hr, hf, hfuel => by
    obtain ⟨t, r, hts, hbang, hminus, -⟩ := primary_head hp
    have hpos : 0 < ts₁.length := by simp [hts]
    simp only [List.length_append] at hfuel
    obtain ⟨f, rfl⟩ := Nat.exists_eq_add_one.mpr (show 0 < fuel by omega)
    rw [List.append_assoc] at hr
    have hr₀ : Reads toks i (t :: (r ++ (ts₂ ++ rest))) := by
      rw [hts, List.cons_append] at hr
      exact hr
    rw [unary, runs_bind (runs_peek hr₀), if_neg (by simp [hbang, hminus]),
      runs_bind (primary_runs hp hr.left (by omega)), List.length_append,
      ← Nat.add_assoc]
    exact trailers_runs htr hr.right hf (by omega)

theorem trailers_runs {toks : Array Token} {e e' : Expr} {ts : List Token} {i fuel : Nat}
    {rest : List Token} :
    Trailers e ts e' → Reads toks i (ts ++ rest) → Follows 5 rest → 8 * ts.length + 1 ≤ fuel →
      Runs (trailers fuel e) toks i e' (i + ts.length)
  | .nil, hr, hf, hfuel => by
    obtain ⟨t, rest', rfl, -, hdot, hparen, hbrack⟩ := hf
    obtain ⟨f, rfl⟩ := Nat.exists_eq_add_one.mpr (show 0 < fuel by omega)
    rw [trailers, runs_bind (runs_peek hr), runs_bind (runs_accept_false hr hdot),
      if_neg Bool.false_ne_true, runs_bind (runs_accept_false hr hparen),
      if_neg Bool.false_ne_true, runs_bind (runs_accept_false hr hbrack),
      if_neg Bool.false_ne_true]
    exact runs_pure
  | @Trailers.member _ _ pos ppos prop ts₁ htr, hr, hf, hfuel => by
    simp only [List.length_cons] at hfuel
    obtain ⟨f, rfl⟩ := Nat.exists_eq_add_one.mpr (show 0 < fuel by omega)
    simp only [List.cons_append] at hr
    rw [trailers, runs_bind (runs_peek hr),
      runs_bind (runs_accept_true hr (by simp [isOp]) (by simp)), if_pos rfl,
      runs_bind (runs_expectIdent _ hr.tail)]
    exact (trailers_runs htr hr.tail.tail hf (by omega)).stop_eq (by simp; omega)
  | @Trailers.call name npos pos ts₁ ts₂ args _ ha htr, hr, hf, hfuel => by
    simp only [List.length_cons, List.length_append] at hfuel
    obtain ⟨f, rfl⟩ := Nat.exists_eq_add_one.mpr (show 0 < fuel by omega)
    simp only [List.cons_append, List.append_assoc] at hr
    rw [trailers, runs_bind (runs_peek hr), runs_bind (runs_accept_false hr (by simp [isOp])),
      if_neg Bool.false_ne_true, runs_bind (runs_accept_true hr (by simp [isOp]) (by simp)),
      if_pos rfl]
    have hr₁ := hr.tail
    rw [runs_bind (args_runs ha hr₁.left (by omega))]
    exact (trailers_runs htr hr₁.right hf (by omega)).stop_eq (by simp; omega)
  | @Trailers.index _ key _ pos cpos ts₁ ts₂ hl htr, hr, hf, hfuel => by
    simp only [List.length_cons, List.length_append] at hfuel
    obtain ⟨f, rfl⟩ := Nat.exists_eq_add_one.mpr (show 0 < fuel by omega)
    simp only [List.cons_append, List.append_assoc] at hr
    rw [trailers, runs_bind (runs_peek hr), runs_bind (runs_accept_false hr (by simp [isOp])),
      if_neg Bool.false_ne_true, runs_bind (runs_accept_false hr (by simp [isOp])),
      if_neg Bool.false_ne_true, runs_bind (runs_accept_true hr (by simp [isOp]) (by simp)),
      if_pos rfl]
    have hr₁ := hr.tail
    rw [runs_bind (level_runs hl hr₁ (follows_closer "]" (by simp) cpos (ts₂ ++ rest)) (by omega))]
    have hr₂ := hr₁.right
    rw [runs_bind (runs_expectOp hr₂)]
    exact (trailers_runs htr hr₂.tail hf (by omega)).stop_eq (by simp; omega)

theorem primary_runs {toks : Array Token} {ts : List Token} {e : Expr} {i fuel : Nat} :
    Primary ts e → Reads toks i ts → 8 * ts.length ≤ fuel + 7 →
      Runs (primary fuel) toks i e (i + ts.length)
  | .paren hl, hr, hfuel => by
    rename_i cpos ts₁
    simp only [List.length_cons, List.length_append] at hfuel
    obtain ⟨f, rfl⟩ := Nat.exists_eq_add_one.mpr (show 0 < fuel by omega)
    rw [primary, runs_bind (runs_advance hr (by simp))]
    have hr₁ := hr.tail
    simp only
    rw [runs_bind (level_runs hl hr₁ (follows_closer ")" (by simp) cpos []) (by omega)),
      runs_bind (runs_expectOp hr₁.right)]
    exact runs_pure.stop_eq (by simp; omega)
  | .number, hr, hfuel | .hex, hr, hfuel | .string, hr, hfuel | .trueLit, hr, hfuel
  | .falseLit, hr, hfuel | .ident, hr, hfuel | .state, hr, hfuel => by
    obtain ⟨f, rfl⟩ := Nat.exists_eq_add_one.mpr (show 0 < fuel by simp at hfuel; omega)
    rw [primary, runs_bind (runs_advance hr (by simp))]
    simp
    exact runs_pure

theorem args_runs {toks : Array Token} {ts : List Token} {es : List Expr} {i fuel : Nat} :
    Args ts es → Reads toks i ts → 8 * ts.length ≤ fuel →
      Runs (arguments fuel ")") toks i es (i + ts.length)
  | .nil, hr, hfuel => by
    obtain ⟨f, rfl⟩ := Nat.exists_eq_add_one.mpr (show 0 < fuel by simp at hfuel; omega)
    rw [arguments, runs_bind (runs_accept_true hr (by simp [isOp]) (by simp)), if_pos rfl]
    exact runs_pure
  | .some ha, hr, hfuel => by
    obtain ⟨t, rest, hts, hclose⟩ := argsFrom_head ha
    have hr₀ : Reads toks i (t :: rest) := hts ▸ hr
    have hpos : 0 < ts.length := by simp [hts]
    obtain ⟨f, rfl⟩ := Nat.exists_eq_add_one.mpr (show 0 < fuel by omega)
    rw [arguments, runs_bind (runs_accept_false hr₀ hclose), if_neg Bool.false_ne_true]
    exact argsFrom_runs ha hr (by omega)

theorem argsFrom_runs {toks : Array Token} {ts : List Token} {es : List Expr} {i fuel : Nat} :
    ArgsFrom ts es → Reads toks i ts → 8 * ts.length ≤ fuel + 1 →
      Runs (argumentsRest fuel ")") toks i es (i + ts.length)
  | .last hl, hr, hfuel => by
    rename_i ts₁ _ cpos
    simp only [List.length_append, List.length_singleton] at hfuel
    obtain ⟨f, rfl⟩ := Nat.exists_eq_add_one.mpr (show 0 < fuel by omega)
    rw [argumentsRest, runs_bind (level_runs hl hr (follows_closer ")" (by simp) cpos []) (by omega))]
    have hr₁ := hr.right
    rw [runs_bind (runs_accept_true hr₁ (by simp [isOp]) (by simp)), if_pos rfl]
    exact runs_pure.stop_eq (by simp; omega)
  | .more hl ha, hr, hfuel => by
    rename_i ts₁ ts₂ e₁ es₁ cpos
    simp only [List.length_append, List.length_cons] at hfuel
    obtain ⟨f, rfl⟩ := Nat.exists_eq_add_one.mpr (show 0 < fuel by omega)
    rw [argumentsRest, runs_bind (level_runs hl hr (follows_closer "," (by simp) cpos ts₂) (by omega))]
    have hr₁ := hr.right
    rw [runs_bind (runs_accept_false hr₁ (by simp [isOp])), if_neg Bool.false_ne_true,
      runs_bind (runs_expectOp hr₁), runs_bind (argsFrom_runs ha hr₁.tail (by omega))]
    exact runs_pure.stop_eq (by simp; omega)
end

/-- An expression of a tighter level is one of the next looser level, with no operators of
that level. -/
theorem Level.lift {k : Nat} {ts : List Token} {e : Expr} (hk : k < 5) (h : Level (k + 1) ts e) :
    Level k ts e := by
  simpa using Level.chain hk h Chain.nil

theorem Level.ofUnary {ts : List Token} {e : Expr} (h : Unary ts e) (k : Nat) (hk : k ≤ 5) :
    Level k ts e := by
  suffices hd : ∀ d, d ≤ 5 → Level (5 - d) ts e by
    simpa [show 5 - (5 - k) = k by omega] using hd (5 - k) (by omega)
  intro d
  induction d with
  | zero => exact fun _ => Level.unary h
  | succ d ih =>
    intro hd
    have hup := ih (by omega)
    rw [show 5 - d = 5 - (d + 1) + 1 by omega] at hup
    exact Level.lift (by omega) hup

/-- At the first token of an expression of the grammar that a token ending it follows, the
reader returns the expression's tree and stops after its last token, given a budget of eight
steps a token. -/
theorem expr_reads_grammar_tree {ts : List Token} {e : Expr} (h : Level 0 ts e)
    (pre rest : List Token) {t : Token} (ht : Stops 0 t.lexeme) {fuel : Nat}
    (hfuel : 8 * ts.length ≤ fuel) :
    ((expr fuel 0).run (pre ++ ts ++ t :: rest).toArray).run pre.length =
      .ok (e, pre.length + ts.length) := by
  have hr : Reads (pre ++ ts ++ t :: rest).toArray pre.length (ts ++ [t]) :=
    ⟨rest, by simp⟩
  exact level_runs h hr ⟨t, [], rfl, ht⟩ (by omega)

theorem Level.tree_unique {ts : List Token} {e e' : Expr} (h : Level 0 ts e)
    (h' : Level 0 ts e') : e = e' := by
  have hr : Reads (ts ++ [(⟨.eof, default⟩ : Token)]).toArray 0 (ts ++ [⟨.eof, default⟩]) :=
    ⟨[], by simp⟩
  have hf : Follows 0 [(⟨.eof, default⟩ : Token)] := ⟨_, [], rfl, stops_eof 0⟩
  have h₁ : Runs (expr (8 * ts.length) 0) _ 0 e _ := level_runs h hr hf (Nat.le_refl _)
  have h₂ : Runs (expr (8 * ts.length) 0) _ 0 e' _ := level_runs h' hr hf (Nat.le_refl _)
  unfold Runs at h₁ h₂
  rw [h₁] at h₂
  cases h₂
  rfl

/-- The tokens of `x > -5`. -/
def comparisonTokens : List Token :=
  [⟨.ident "x", ⟨1, 1⟩⟩, ⟨.op ">", ⟨1, 3⟩⟩, ⟨.op "-", ⟨1, 5⟩⟩, ⟨.number 5, ⟨1, 6⟩⟩]

theorem expr_reads_grammar_tree_comparison :
    Level 0 comparisonTokens (.binary ">" (.ident "x" ⟨1, 1⟩) (.lit (.int (-5)) ⟨1, 5⟩) ⟨1, 3⟩) ∧
      Stops 0 Lexeme.eof ∧ 8 * comparisonTokens.length ≤ 32 ∧
      ((expr 32 0).run ([] ++ comparisonTokens ++ [(⟨.eof, ⟨1, 7⟩⟩ : Token)]).toArray).run
          ([] : List Token).length =
        .ok (.binary ">" (.ident "x" ⟨1, 1⟩) (.lit (.int (-5)) ⟨1, 5⟩) ⟨1, 3⟩,
          ([] : List Token).length + comparisonTokens.length) := by
  have hx : Level 3 [⟨.ident "x", ⟨1, 1⟩⟩] (.ident "x" ⟨1, 1⟩) :=
    Level.ofUnary (by simpa using Unary.trailed Primary.ident Trailers.nil) 3 (by omega)
  have hneg : Level 3 [⟨.op "-", ⟨1, 5⟩⟩, ⟨.number 5, ⟨1, 6⟩⟩] (.lit (.int (-5)) ⟨1, 5⟩) :=
    Level.ofUnary (Unary.neg (Unary.trailed Primary.number Trailers.nil)) 3 (by omega)
  have hcmp : Level 2 comparisonTokens
      (.binary ">" (.ident "x" ⟨1, 1⟩) (.lit (.int (-5)) ⟨1, 5⟩) ⟨1, 3⟩) :=
    Level.chain (by omega) hx (Chain.cons (show atLevel 2 (.op ">") = true by decide) hneg Chain.nil)
  have hder := Level.lift (by omega) (Level.lift (by omega) hcmp)
  have hstop : Stops 0 Lexeme.eof := stops_eof 0
  have hfuel : 8 * comparisonTokens.length ≤ 32 := by decide
  exact ⟨hder, hstop, hfuel, expr_reads_grammar_tree hder [] [] hstop hfuel⟩

end Parse

end PuzzleKit.Script
