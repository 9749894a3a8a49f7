import PuzzleKit.Script.Compile
import PuzzleKit.Proofs.Checked

/-!
# Every action is named by a name

A solution holds an action's name as text only because no action's name reads as hex: every
action of a coin starts with a letter or an underscore, or has the empty name (`NameLike`).
The scan makes a name token only there (`next_ident`, `scanFrom_named`). Reading takes an
action's name from a name token, or leaves it empty (`Parse.yields_program`, from rules for
the triple `Parse.Yields` over the reading monad). The check records only actions of the coin
(`analyze_actions`, from rules for `Check.Records`: every step but one leaves the actions as
they are, and that one records the action being checked). The generated signatures are those
of the actions the check recorded (`generate_signatures`).
-/

namespace PuzzleKit.Script

/-- Text that starts as a name of the language does, with a letter or an underscore, or is
empty. -/
def NameLike (s : String) : Prop := ∀ ch ∈ s.toList.head?, isNameStart ch = true

theorem except_bind_ok {ε α β : Type} {x : Except ε α} {f : α → Except ε β} {b : β}
    (h : (x >>= f) = .ok b) : ∃ a, x = .ok a ∧ f a = .ok b := by
  cases x with
  | error e => cases h
  | ok a => exact ⟨a, rfl, h⟩

/-! ## Scanning -/

def Named (toks : List Token) : Prop := ∀ t ∈ toks, ∀ n, t.lexeme = .ident n → NameLike n ∧ n ≠ ""

theorem nameLexeme_ident {s n : String} (h : nameLexeme s = .ident n) : n = s := by
  unfold nameLexeme at h
  split at h
  · cases h
  · split at h
    · cases h
    · exact (Lexeme.ident.inj h).symm

/-- A scan step reads a name only where a letter or an underscore starts it. -/
theorem next_ident {cs : List Char} {pos : Pos} {n : String} {taken rest : List Char}
    (h : next cs pos = .ok (some (.ident n), taken, rest)) : NameLike n ∧ n ≠ "" := by
  unfold next at h
  split at h
  · cases h
  · rename_i c more
    dsimp only at h
    repeat' split at h
    -- the other branches read no name, or fail
    all_goals try (simp at h; done)
    · -- a quoted text reads as a string
      obtain ⟨text, -, h⟩ := except_bind_ok h
      simp at h
    · rename_i hname
      simp only [Except.ok.injEq, Prod.mk.injEq, Option.some.injEq] at h
      rw [nameLexeme_ident h.1]
      refine ⟨by simpa [NameLike] using hname, fun he => ?_⟩
      have hl := congrArg String.toList he
      simp at hl

theorem named_eof (pos : Pos) : Named [⟨.eof, pos⟩] := by
  intro t ht n hn
  rw [List.mem_singleton] at ht
  subst ht
  cases hn

theorem scanFrom_named : ∀ (fuel : Nat) (cs : List Char) (pos : Pos) {toks : List Token},
    scanFrom fuel cs pos = .ok toks → Named toks
  | 0, _, pos, _, h => by
    cases h
    exact named_eof pos
  | fuel + 1, cs, pos, toks, h => by
    unfold scanFrom at h
    split at h
    · cases h
      exact named_eof pos
    · obtain ⟨⟨tok, taken, rest⟩, hnext, h⟩ := except_bind_ok h
      obtain ⟨more, hmore, h⟩ := except_bind_ok h
      have ih := scanFrom_named fuel rest _ hmore
      cases tok with
      | none =>
        cases h
        exact ih
      | some l =>
        cases h
        intro t ht n hn
        rcases List.mem_cons.mp ht with rfl | ht
        · cases hn
          exact next_ident hnext
        · exact ih t ht n hn

theorem tokenize_named {src : String} {toks : List Token} (h : tokenize src = .ok toks) :
    Named toks :=
  scanFrom_named _ _ _ h

/-! ## Reading -/

def Token.Named (t : Token) : Prop := ∀ n, t.lexeme = .ident n → NameLike n ∧ n ≠ ""

namespace Parse

section Yields

variable {α β : Type}

/-- A reading step whose result satisfies `Q` whenever it succeeds on tokens whose names are
names. -/
def Yields (Q : α → Prop) (x : ParseM α) : Prop :=
  ∀ (toks : Array Token) (i : Nat) (a : α) (j : Nat), Named toks.toList →
    (x.run toks).run i = .ok (a, j) → Q a

theorem bind_ok {x : ParseM α} {f : α → ParseM β} {toks : Array Token} {i j : Nat} {b : β}
    (h : ((x >>= f).run toks).run i = .ok (b, j)) :
    ∃ a k, (x.run toks).run i = .ok (a, k) ∧ ((f a).run toks).run k = .ok (b, j) := by
  simp only [bind, ReaderT.bind, ReaderT.run, StateT.bind, StateT.run] at h ⊢
  cases hx : x toks i with
  | error e => rw [hx] at h; cases h
  | ok p => rw [hx] at h; exact ⟨p.1, p.2, rfl, h⟩

theorem yields_pure {Q : α → Prop} {a : α} (h : Q a) : Yields Q (pure a) := by
  intro toks i b j _ hr
  cases hr
  exact h

theorem yields_bind {P : α → Prop} {Q : β → Prop} {x : ParseM α} {f : α → ParseM β}
    (hx : Yields P x) (hf : ∀ a, P a → Yields Q (f a)) : Yields Q (x >>= f) := by
  intro toks i b j hn hr
  obtain ⟨a, k, h1, h2⟩ := bind_ok hr
  exact hf a (hx toks i a k hn h1) toks k b j hn h2

theorem yields_true (x : ParseM α) : Yields (fun _ => True) x := fun _ _ _ _ _ _ => trivial

theorem yields_seq {Q : β → Prop} {x : ParseM α} {f : α → ParseM β}
    (hf : ∀ a, Yields Q (f a)) : Yields Q (x >>= f) :=
  yields_bind (yields_true x) fun a _ => hf a

theorem yields_fault {Q : α → Prop} (text : String) (pos : Pos) : Yields Q (fault text pos) := by
  intro toks i a j _ hr
  cases hr

theorem yields_and {P Q : α → Prop} {x : ParseM α} (hP : Yields P x) (hQ : Yields Q x) :
    Yields (fun a => P a ∧ Q a) x :=
  fun toks i a j hn hr => ⟨hP toks i a j hn hr, hQ toks i a j hn hr⟩

end Yields

theorem peek_run (ahead : Nat) (toks : Array Token) (i : Nat) :
    ((peek ahead).run toks).run i = .ok (toks.getD (min (i + ahead) (toks.size - 1)) default, i) :=
  rfl

theorem yields_peek (ahead : Nat) : Yields Token.Named (peek ahead) := by
  intro toks i t j hn hr
  rw [peek_run] at hr
  cases hr
  rw [Array.getD_eq_getD_getElem?]
  cases hk : toks[min (i + ahead) (toks.size - 1)]? with
  | none => intro n hd; cases hd
  | some t => exact hn t (Array.mem_toList_iff.mpr (Array.mem_of_getElem? hk))

theorem yields_advance : Yields Token.Named advance := by
  refine yields_bind (yields_peek 0) fun t ht => ?_
  dsimp only
  split
  · exact yields_seq fun _ => yields_pure ht
  · exact yields_pure ht

theorem yields_expect (p : Lexeme → Bool) (want : String) : Yields Token.Named (expect p want) := by
  refine yields_bind (yields_peek 0) fun t _ => ?_
  split
  · exact yields_advance
  · exact yields_fault _ _

theorem yields_expect_kind (p : Lexeme → Bool) (want : String) :
    Yields (fun t => p t.lexeme = true) (expect p want) := by
  intro toks i t j _ h
  obtain ⟨t₀, k, h1, h⟩ := bind_ok h
  rw [peek_run] at h1
  cases h1
  split at h
  · rename_i hp
    obtain ⟨t₁, k', h2, h⟩ := bind_ok h
    rw [peek_run] at h2
    cases h2
    dsimp only at h
    split at h
    · obtain ⟨_, _, -, h⟩ := bind_ok h
      cases h
      exact hp
    · cases h
      exact hp
  · cases h

theorem yields_expectIdent (what : String) :
    Yields (fun r => NameLike r.1 ∧ r.1 ≠ "") (expectIdent what) := by
  refine yields_bind (yields_and (yields_expect _ _) (yields_expect_kind _ _)) fun t ⟨ht, hk⟩ => ?_
  split
  · exact yields_pure (ht _ ‹_›)
  · -- the token taken is a name, so this arm is never reached
    rename_i hnot
    cases hl : t.lexeme with
    | ident n => exact absurd hl (hnot n)
    | _ => simp [hl] at hk

def Members.Named (m : Members) : Prop := ∀ a ∈ m.actions, NameLike a.name ∧ a.name ≠ ""

theorem yields_member (fuel : Nat) {m : Members} (hm : m.Named) :
    Yields Members.Named (member fuel m) := by
  unfold member
  refine yields_seq fun t => ?_
  split
  -- the members that are not actions leave the actions as they are
  case h_1 | h_2 | h_4 | h_5 | h_6 | h_7 =>
    repeat' first | exact yields_pure hm | refine yields_seq fun _ => ?_
  case h_3 =>
    -- a constant's type is read only when it is there
    dsimp only
    repeat' first | exact yields_pure hm | refine yields_seq fun _ => ?_ | split
  case h_8 | h_9 =>
    refine yields_seq fun _ => yields_seq fun _ => yields_bind (yields_expectIdent _) fun ⟨name, _⟩ hn => ?_
    dsimp only
    repeat' refine yields_seq fun _ => ?_
    refine yields_pure fun a ha => ?_
    rcases List.mem_append.mp ha with ha | ha
    · exact hm a ha
    · rw [List.mem_singleton] at ha
      subst ha
      exact hn
  case h_10 => exact yields_fault _ _

theorem yields_spent {α : Type} {Q : α → Prop} : Yields Q spent :=
  yields_seq fun _ => yields_fault _ _

theorem yields_members : ∀ (fuel : Nat) {m : Members}, m.Named →
    Yields Members.Named (members fuel m)
  | 0, _, _ => yields_spent
  | fuel + 1, m, hm => by
    unfold members
    dsimp only
    repeat' first
      | exact yields_pure hm
      | exact yields_fault _ _
      | exact yields_bind (yields_member fuel hm) fun _ hm' => yields_members fuel hm'
      | refine yields_seq fun _ => ?_
      | split

/-- Every action of a coin read has a name, which is not empty. -/
theorem yields_program (fuel : Nat) :
    Yields (fun coin : CoinDecl => ∀ a ∈ coin.actions, NameLike a.name ∧ a.name ≠ "") (program fuel) := by
  unfold program
  refine yields_seq fun _ => yields_seq fun _ => yields_seq fun _ => yields_seq fun _ => ?_
  dsimp only
  refine yields_seq fun _ => yields_bind (yields_members fuel (m := { includes := _ }) ?_) fun m hm => ?_
  · intro a ha
    cases ha
  · exact yields_seq fun _ => yields_seq fun _ => yields_pure hm

end Parse

/-! ## Checking -/

namespace Check

section Records

variable {α β γ : Type} {R : ActionInfo → Prop}

/-- A check step that records no action of which `R` fails, and whose result satisfies `Q`. -/
def Records (R : ActionInfo → Prop) (Q : α → Prop) (x : CheckM α) : Prop :=
  ∀ c : Checker, (∀ i ∈ c.actions, R i) → Q (x.run c).1 ∧ ∀ i ∈ (x.run c).2.actions, R i

theorem records_pure {Q : α → Prop} {a : α} (h : Q a) : Records R Q (pure a) :=
  fun _ hc => ⟨h, hc⟩

theorem records_bind {P : α → Prop} {Q : β → Prop} {x : CheckM α} {f : α → CheckM β}
    (hx : Records R P x) (hf : ∀ a, P a → Records R Q (f a)) : Records R Q (x >>= f) :=
  fun c hc => hf _ (hx c hc).1 _ (hx c hc).2

theorem records_of_steady {x : CheckM α} (h : Steady x) : Records R (fun _ => True) x :=
  fun c hc => ⟨trivial, fun i hi => hc i ((h c).actions ▸ hi)⟩

theorem records_seq {Q : β → Prop} {x : CheckM α} {f : α → CheckM β} (hx : Steady x)
    (hf : ∀ a, Records R Q (f a)) : Records R Q (x >>= f) :=
  records_bind (records_of_steady hx) fun a _ => hf a

theorem records_modify {f : Checker → Checker} (hf : ∀ c, (f c).actions = c.actions) :
    Records R (fun _ => True) (modify f) :=
  fun c hc => ⟨trivial, fun i hi => hc i ((hf c) ▸ hi)⟩

theorem records_forIn (I : β → Prop) {body : γ → β → CheckM (ForInStep β)} :
    ∀ (xs : List γ), (∀ x ∈ xs, ∀ b, I b → Records R (fun r => I r.value) (body x b)) →
      ∀ {b : β}, I b → Records R I (forIn xs b body)
  | [], _, _, hb => records_pure hb
  | x :: xs, h, b, hb => by
    rw [List.forIn_cons]
    refine records_bind (h x List.mem_cons_self b hb) fun r hr => ?_
    cases r with
    | done b' => exact records_pure hr
    | yield b' => exact records_forIn I xs (fun y hy => h y (List.mem_cons_of_mem x hy)) hr

theorem putAction_run (info : ActionInfo) (c : Checker) :
    (putAction info).run c = ((), { c with
      actions := (if c.actions.any (fun i => i.action.name == info.action.name) then
        c.actions.map fun i => if i.action.name == info.action.name then info else i
      else c.actions ++ [info]) }) := rfl

theorem records_putAction {info : ActionInfo} (h : R info) :
    Records R (fun _ => True) (putAction info) := by
  intro c hc
  refine ⟨trivial, fun i hi => ?_⟩
  rw [putAction_run] at hi
  dsimp only at hi
  split at hi
  · -- an action known already is replaced
    obtain ⟨j, hj, rfl⟩ := List.mem_map.mp hi
    split
    · exact h
    · exact hc j hj
  · rcases List.mem_append.mp hi with hi | hi
    · exact hc i hi
    · rw [List.mem_singleton] at hi
      subst hi
      exact h

end Records

theorem records_guard {Q : β → Prop} (b : Bool) (text : String) (pos : Pos)
    {K : Unit → CheckM β} (hK : ∀ u, Records R Q (K u)) :
    Records R Q (if b = true then fault text pos >>= K else K ()) := by
  split
  · exact records_seq (steady_fault _ _) hK
  · exact hK ()

theorem steady_forIn {body : γ → β → CheckM (ForInStep β)} (h : ∀ x b, Steady (body x b)) :
    ∀ (xs : List γ) (b : β), Steady (forIn xs b body)
  | [], b => steady_pure b
  | x :: xs, b => by
    rw [List.forIn_cons]
    refine steady_bind (h x b) fun r => ?_
    cases r with
    | done b' => exact steady_pure b'
    | yield b' => exact steady_forIn h xs b'

/-- Claiming a generated name faults on a clash or records the claim, which changes only the
tables of generated names. -/
theorem mapName_run (author vm : String) (pos : Pos) (c : Checker) :
    Keeps c ((mapName author vm pos).run c).2 ∨
      ((mapName author vm pos).run c).2 =
        { c with vmOwners := setKey c.vmOwners vm author, nameMap := setKey c.nameMap author vm } := by
  cases hl : c.vmOwners.lookup vm with
  | none =>
    right
    simp [mapName, hl]
    rfl
  | some owner =>
    by_cases ho : owner = author
    · right
      simp [mapName, hl, ho]
      rfl
    · -- a name owned by another is a clash, recorded as a fault
      left
      have hf := steady_bind (steady_fault (author ++ " and " ++ owner ++ " both map to " ++ vm) pos)
        (fun _ => steady_pure vm) c
      simpa [mapName, hl, ho] using hf

theorem records_mapName (author vm : String) (pos : Pos) :
    Records R (fun _ => True) (mapName author vm pos) := by
  intro c hc
  refine ⟨trivial, fun i hi => hc i ?_⟩
  rcases mapName_run author vm pos c with h | h
  · exact h.actions ▸ hi
  · rwa [h] at hi

theorem records_declare (s : Symbol) : Records R (fun _ => True) (declare s) := by
  unfold declare
  refine records_seq (steady_global? _) fun prev => ?_
  split
  · dsimp only
    split
    · exact records_seq (steady_fault _ _) fun _ => records_pure trivial
    · exact records_seq (steady_fault _ _) fun _ => records_pure trivial
  · exact records_bind (records_modify fun _ => rfl) fun _ _ => records_pure trivial

theorem steady_literalType (e : Expr) : Steady (literalType e) := by
  unfold literalType
  split
  · exact steady_bind (steady_expr _ _) fun _ => steady_pure _
  · exact steady_pure _

theorem steady_initializer (v : VarDecl) : Steady (initializer v) := by
  unfold initializer
  split
  · exact steady_pure _
  · refine steady_bind (steady_literalType _) fun ty => ?_
    split
    · exact steady_fault _ _
    · dsimp only
      split
      · exact steady_bind steady_get fun _ => steady_fault _ _
      · exact steady_pure _

theorem records_initialized (v : VarDecl) (b : Bool) :
    Records R (fun _ => True) (if b = true then initializer v >>= fun _ => pure (ForInStep.yield PUnit.unit)
      else pure (ForInStep.yield PUnit.unit)) := by
  split
  · exact records_seq (steady_initializer v) fun _ => records_pure trivial
  · exact records_pure trivial

theorem records_declareGlobals : Records R (fun _ => True) declareGlobals := by
  unfold declareGlobals
  refine records_seq steady_get fun c => ?_
  dsimp only
  -- storage variables: no mappings, then a generated name, a declaration and an initial value
  refine records_bind (records_forIn (fun _ => True) _ (fun v _ _ _ => ?_) trivial) fun _ _ => ?_
  · refine records_guard _ _ _ fun _ => records_bind (records_mapName _ _ _) fun _ _ => ?_
    exact records_bind (records_declare _) fun b _ => records_initialized v b
  refine records_bind (records_forIn (fun _ => True) _ (fun v _ _ _ => ?_) trivial) fun _ _ => ?_
  · exact records_bind (records_declare _) fun b _ => records_initialized v b
  refine records_bind (records_forIn (fun _ => True) _ (fun k _ _ _ => ?_) trivial) fun _ _ => ?_
  · refine records_seq (steady_literalType _) fun _ => records_guard _ _ _ fun _ => ?_
    exact records_bind (records_mapName _ _ _) fun _ _ =>
      records_bind (records_declare _) fun _ _ => records_pure trivial
  refine records_bind (records_forIn (fun _ => True) _ (fun e _ _ _ => ?_) trivial) fun _ _ => ?_
  · exact records_bind (records_declare _) fun _ _ => records_pure trivial
  refine records_bind (records_forIn (fun _ => True) _ (fun f _ _ _ => ?_) trivial) fun _ _ => ?_
  · exact records_bind (records_mapName _ _ _) fun _ _ =>
      records_bind (records_declare _) fun _ _ => records_pure trivial
  exact records_pure trivial

theorem steady_singleton (d : Decorator) : Steady (singleton d) := by
  unfold singleton
  have hset : ∀ e, Steady (modify fun c : Checker => { c with launcherId := some e }) :=
    fun _ => steady_modify fun _ => ⟨rfl, Nat.le_refl _, id, id, rfl, fun _ _ => rfl, rfl,
      fun _ _ hi => .inl hi⟩
  split
  · refine steady_bind (steady_expr _ _) fun ty => ?_
    dsimp only
    split
    · exact steady_bind (steady_global? _) fun _ => steady_guard _ _ _ fun _ => hset _
    · exact steady_bind (steady_pure _) fun _ => steady_guard _ _ _ fun _ => hset _
  · refine steady_bind (steady_global? _) fun s => ?_
    split
    · split
      · exact hset _
      · exact steady_fault _ _
    · exact steady_fault _ _
  · exact steady_fault _ _

theorem steady_coinDecorators : Steady coinDecorators := by
  unfold coinDecorators
  refine steady_bind steady_get fun c =>
    steady_bind (steady_forIn (fun d _ => ?_) _ _) fun _ => steady_pure _
  dsimp only
  split
  · exact steady_bind (steady_fault _ _) fun _ => steady_pure _
  · split
    · exact steady_guard _ _ _ fun _ =>
        steady_bind (steady_modify fun _ => ⟨rfl, Nat.le_refl _, id, id, rfl, fun _ _ => rfl, rfl,
          fun _ _ hi => .inl hi⟩) fun _ => steady_pure _
    · split
      · exact steady_bind (steady_singleton d) fun _ => steady_pure _
      · exact steady_bind (steady_fault _ _) fun _ => steady_pure _

theorem steady_spendPath : Steady spendPath := by
  unfold spendPath
  refine steady_bind steady_get fun c => ?_
  dsimp only
  refine steady_guard _ _ _ fun _ =>
    steady_bind (steady_foldlM _ (fun seen a => ?_) _ _) fun _ => steady_pure _
  exact steady_guard _ _ _ fun _ => steady_pure _

theorem steady_declareParams (scope : String) (ps : List Param) :
    Steady (declareParams scope ps) := by
  unfold declareParams
  dsimp only
  -- both loops only fault: the first on repeated names and mappings, the second on clashes
  refine steady_bind (steady_forIn (fun p r => ?_) _ _) fun r =>
    steady_bind (steady_forIn (fun s vms => ?_) _ _) fun _ => steady_pure _
  · exact steady_guard _ _ _ fun _ => steady_guard _ _ _ fun _ => steady_pure _
  · split
    · exact steady_bind (steady_fault _ _) fun _ => steady_pure _
    · exact steady_pure _

theorem run_forIn_yield {β γ : Type} (f : γ → β → β) {body : γ → β → CheckM (ForInStep β)}
    (h : ∀ x b c, ((body x b).run c).1 = .yield (f x b)) :
    ∀ (xs : List γ) (b : β) (c : Checker), ((forIn xs b body).run c).1 = xs.foldl (fun b x => f x b) b
  | [], _, _ => rfl
  | x :: xs, b, c => by
    rw [List.forIn_cons]
    show ((match ((body x b).run c).1 with
      | .done b => pure b
      | .yield b => forIn xs b body : CheckM β).run ((body x b).run c).2).1 = _
    rw [h]
    exact run_forIn_yield f h xs _ _

theorem foldl_fst {β δ γ : Type} (g : β → γ → β) (k : δ → γ → δ) :
    ∀ (xs : List γ) (b : β × δ), (xs.foldl (fun b x => (g b.1 x, k b.2 x)) b).1 = xs.foldl g b.1
  | [], _ => rfl
  | x :: xs, b => foldl_fst g k xs (g b.1 x, k b.2 x)

/-- The symbol a parameter is declared with in a scope. -/
def paramSymbol (scope : String) (p : Param) : Symbol :=
  ⟨p.name, .parameter, .written p.type, scope, vmSafe (snakeCase p.name), some .solution, p.pos, .other⟩

theorem declareParams_frame (scope : String) (ps : List Param) (c : Checker) :
    ((declareParams scope ps).run c).1 =
      ps.foldl (fun f p => f.define (paramSymbol scope p)) { name := scope } := by
  unfold declareParams
  change (((forIn ps (({ name := scope } : Frame), ([] : List String)) _ :
    CheckM (Frame × List String)).run c).1).1 = _
  rw [run_forIn_yield (fun p s => (s.1.define (paramSymbol scope p), s.2 ++ [p.name]))]
  · exact foldl_fst (fun (f : Frame) p => f.define (paramSymbol scope p))
      (fun seen (p : Param) => seen ++ [p.name]) ps _
  · intro p s c
    dsimp only
    split <;> split <;> rfl

theorem Frame.mem_define {f : Frame} {s t : Symbol} (h : t ∈ (f.define s).symbols) :
    t ∈ f.symbols ∨ t = s := by
  unfold Frame.define at h
  split at h
  · obtain ⟨u, hu, rfl⟩ := List.mem_map.mp h
    split
    · exact .inr rfl
    · exact .inl hu
  · rcases List.mem_append.mp h with h | h
    · exact .inl h
    · exact .inr (List.mem_singleton.mp h)

theorem Frame.named_define (f : Frame) (s : Symbol) {n : String}
    (h : n = s.name ∨ n ∈ f.symbols.map (·.name)) : ∃ t ∈ (f.define s).symbols, t.name = n := by
  unfold Frame.define
  split
  · rename_i hany
    rcases h with rfl | h
    · obtain ⟨u, hu, hun⟩ := List.any_eq_true.mp hany
      exact ⟨s, List.mem_map.mpr ⟨u, hu, by simp [hun]⟩, rfl⟩
    · obtain ⟨u, hu, rfl⟩ := List.mem_map.mp h
      by_cases hus : (u.name == s.name) = true
      · exact ⟨s, List.mem_map.mpr ⟨u, hu, by simp [hus]⟩, (beq_iff_eq.mp hus).symm⟩
      · exact ⟨u, List.mem_map.mpr ⟨u, hu, by simp [hus]⟩, rfl⟩
  · rcases h with rfl | h
    · exact ⟨s, List.mem_append_right _ (List.mem_singleton_self _), rfl⟩
    · obtain ⟨u, hu, rfl⟩ := List.mem_map.mp h
      exact ⟨u, List.mem_append_left _ hu, rfl⟩

theorem foldl_define_named (scope : String) : ∀ (ps : List Param) (f : Frame),
    (∀ s ∈ f.symbols, s.vmName = vmSafe (snakeCase s.name)) →
      (∀ s ∈ (ps.foldl (fun f p => f.define (paramSymbol scope p)) f).symbols,
        s.vmName = vmSafe (snakeCase s.name)) ∧
      ∀ n, n ∈ f.symbols.map (·.name) ∨ (∃ p ∈ ps, p.name = n) →
        ∃ t ∈ (ps.foldl (fun f p => f.define (paramSymbol scope p)) f).symbols, t.name = n
  | [], f, hf => ⟨hf, fun n h => by
      rcases h with h | ⟨p, hp, -⟩
      · obtain ⟨t, ht, rfl⟩ := List.mem_map.mp h
        exact ⟨t, ht, rfl⟩
      · cases hp⟩
  | p :: ps, f, hf => by
    -- one declaration keeps the invariant; the rest of the list is the induction
    have hstep : ∀ s ∈ (f.define (paramSymbol scope p)).symbols,
        s.vmName = vmSafe (snakeCase s.name) :=
      fun s hs => (Frame.mem_define hs).elim (hf s) fun h => by
        subst h
        simp only [paramSymbol]
    obtain ⟨hvm, hnames⟩ := foldl_define_named scope ps _ hstep
    refine ⟨hvm, fun n h => hnames n ?_⟩
    rcases h with h | ⟨q, hq, rfl⟩
    · obtain ⟨t, ht, htn⟩ := Frame.named_define f (paramSymbol scope p) (.inr h)
      exact .inl (htn ▸ List.mem_map_of_mem ht)
    · rcases List.mem_cons.mp hq with rfl | hq
      · obtain ⟨t, ht, htn⟩ := Frame.named_define f (paramSymbol scope q) (.inl rfl)
        have htq : t.name = q.name := htn
        exact .inl (htq ▸ List.mem_map_of_mem ht)
      · exact .inr ⟨q, hq, rfl⟩

/-- Every parameter of `ps` is found in `syms` under its name, with the generated name of its
name. -/
def ParamsNamed (ps : List Param) (syms : List Symbol) : Prop :=
  ∀ p ∈ ps, (syms.find? (·.name == p.name)).map (·.vmName) = some (vmSafe (snakeCase p.name))

theorem declareParams_named (scope : String) (ps : List Param) (c : Checker) :
    ParamsNamed ps ((declareParams scope ps).run c).1.symbols := by
  intro p hp
  rw [declareParams_frame]
  obtain ⟨hvm, hnames⟩ := foldl_define_named scope ps { name := scope } (by simp)
  obtain ⟨t, ht, htn⟩ := hnames p.name (.inr ⟨p, hp, rfl⟩)
  obtain ⟨u, hfind⟩ : ∃ u, (ps.foldl (fun (f : Frame) p => f.define (paramSymbol scope p))
      ({ name := scope } : Frame)).symbols.find? (·.name == p.name) = some u :=
    Option.isSome_iff_exists.mp (List.find?_isSome.mpr ⟨t, ht, by simp [htn]⟩)
  have hu : u.name = p.name := by simpa using List.find?_some hfind
  rw [hfind, Option.map_some, hvm u (List.mem_of_find?_eq_some hfind), hu]

theorem records_declareParams (scope : String) (ps : List Param) :
    Records R (fun frame => ParamsNamed ps frame.symbols) (declareParams scope ps) :=
  fun c hc => ⟨declareParams_named scope ps c,
    (records_of_steady (steady_declareParams scope ps) c hc).2⟩

/-- Checking a function records its parameters under its name: it keeps what a body check
keeps up to that record, and again after it. -/
theorem function_run (f : FunctionDecl) (c : Checker) :
    ∃ c₁, Keeps c c₁ ∧ Keeps { c₁ with functions := (setKey c₁.functions f.name
      ((declareParams ("function " ++ f.name) f.params).run c).1.symbols) } ((function f).run c).2 := by
  refine ⟨((declareParams ("function " ++ f.name) f.params).run c).2, steady_declareParams _ _ c, ?_⟩
  have hend : ∀ b : Bool, Steady (if b = true then
      fault ("function " ++ f.name ++ " does not return on every path") f.pos else pure ()) := by
    intro b
    split
    · exact steady_fault _ _
    · exact steady_pure _
  exact steady_bind (steady_stmts _ f.body) (fun _ => hend _) _

/-- What checking a function keeps of all a body check keeps: everything but the table of
functions. -/
theorem function_keeps (f : FunctionDecl) (c : Checker) :
    ((function f).run c).2.globals = c.globals ∧
      c.faults.length ≤ ((function f).run c).2.faults.length ∧
      ((function f).run c).2.actions = c.actions ∧
      ∀ n, Stable c.globals n → ((function f).run c).2.nameMap.lookup n = c.nameMap.lookup n := by
  obtain ⟨c₁, h₁, h₂⟩ := function_run f c
  exact ⟨h₂.globals.trans h₁.globals, Nat.le_trans h₁.faults h₂.faults,
    h₂.actions.trans h₁.actions, fun n hn => (h₂.names n (h₁.globals ▸ hn)).trans (h₁.names n hn)⟩

theorem records_function (f : FunctionDecl) : Records R (fun _ => True) (function f) :=
  fun c hc => ⟨trivial, fun i hi => hc i ((function_keeps f c).2.2.1 ▸ hi)⟩

theorem steady_access (d : Decorator) : Steady (access d) := by
  unfold access
  dsimp only
  refine steady_guard _ _ _ fun _ =>
    steady_bind (steady_forIn (fun arg _ => ?_) _ _) fun _ => steady_pure _
  refine steady_bind (steady_expr _ _) fun ty => ?_
  -- an address of a kind not allowed is a fault
  split
  · refine steady_bind (steady_global? _) fun s => ?_
    split
    · exact steady_bind (steady_pure _) fun _ => steady_guard _ _ _ fun _ => steady_pure _
    · exact steady_bind (steady_pure _) fun _ => steady_guard _ _ _ fun _ => steady_pure _
  · exact steady_bind (steady_pure _) fun _ => steady_guard _ _ _ fun _ => steady_pure _
  · exact steady_bind (steady_pure _) fun _ => steady_guard _ _ _ fun _ => steady_pure _

theorem steady_get_bind {f : Checker → CheckM α} (h : ∀ c, Keeps c ((f c).run c).2) :
    Steady (get >>= f) := h

theorem keeps_forIn {P : Checker → Prop} {body : γ → PUnit → CheckM (ForInStep PUnit)} :
    ∀ (xs : List γ), (∀ x ∈ xs, ∀ c, P c → Keeps c ((body x PUnit.unit).run c).2 ∧
      P ((body x PUnit.unit).run c).2 ∧ ((body x PUnit.unit).run c).1 = .yield PUnit.unit) →
      ∀ c, P c → Keeps c ((forIn xs PUnit.unit body).run c).2
  | [], _, c, _ => Keeps.refl c
  | x :: xs, h, c, hc => by
    obtain ⟨hk, hp, hy⟩ := h x List.mem_cons_self c hc
    rw [List.forIn_cons, run_bind_snd, hy]
    exact hk.trans (keeps_forIn xs (fun y hy => h y (List.mem_cons_of_mem _ hy)) _ hp)

theorem keeps_addInclude {c c' : Checker} (h : Keeps c c') (p : String)
    (hp : (∀ l ∈ c.libraryCalls, isKnownInclude l.2.2 = true) →
      Build.Puzzle.includeAllowed p = true ∨ c.faults.length < c'.faults.length) :
    Keeps c { c' with includes := if c'.includes.contains p then c'.includes else c'.includes ++ [p] } := by
  refine ⟨h.globals, h.faults, h.amount, h.library, h.actions, h.names, h.functions, fun hl i hi => ?_⟩
  dsimp only at hi
  split at hi
  · exact h.includes hl i hi
  · rcases List.mem_append.mp hi with hi | hi
    · exact h.includes hl i hi
    · rw [List.mem_singleton.mp hi]
      exact .inr (hp hl)

theorem steady_resolveIncludes : Steady resolveIncludes := by
  unfold resolveIncludes
  refine steady_bind steady_get fun c => ?_
  dsimp only
  refine steady_bind (steady_forIn (fun p _ => ?_) _ _) fun _ => steady_get_bind fun c' => ?_
  · -- a file the coin names that may not be used is added after a fault
    intro d
    split
    · exact keeps_addInclude (steady_fault _ _ d) p fun _ => .inr (by simp [fault_run])
    · rename_i hok
      rw [Bool.not_eq_true, Bool.not_eq_eq_eq_not] at hok
      exact keeps_addInclude (Keeps.refl d) p fun _ => .inl hok
  · -- the files of the library calls are known, and the calls stay as they were read
    refine keeps_forIn (P := fun d => d.libraryCalls = c'.libraryCalls) _ (fun x hx d hd => ?_) c' rfl
    obtain ⟨_, _, p⟩ := x
    refine ⟨keeps_addInclude (Keeps.refl d) p fun hl => .inl ?_, hd, rfl⟩
    simp [Build.Puzzle.includeAllowed, hl _ (hd ▸ hx)]

theorem records_action {a : Action}
    (ha : ∀ i : ActionInfo, i.action = a → ParamsNamed a.params i.params → R i) :
    Records R (fun _ => True) (action a) := by
  unfold action
  refine records_bind (records_declareParams _ _) fun frame hframe => ?_
  dsimp only
  refine records_bind (records_putAction (ha _ rfl hframe)) fun _ _ =>
    records_seq steady_get fun c => ?_
  -- the decorators change what is known of the action, never which action it is or its
  -- parameters
  refine records_bind (records_forIn (fun info : ActionInfo => info.action = a ∧
    info.params = frame.symbols) _ (fun d _ info hi => ?_) ⟨rfl, rfl⟩) fun info hi => ?_
  · split
    · exact records_guard _ _ _ fun _ => records_guard _ _ _ fun _ => records_pure hi
    · split
      · exact records_seq (steady_access d) fun _ => records_pure hi
      · split
        · exact records_seq (steady_fault _ _) fun _ => records_pure hi
        · exact records_seq (steady_fault _ _) fun _ => records_pure hi
  · refine records_bind (records_modify fun _ => rfl) fun _ _ =>
      records_seq (steady_stmts _ _) fun _ => records_seq steady_get fun _ => ?_
    exact records_putAction (ha _ hi.1 (hi.2 ▸ hframe))

end Check

/-- Every action the check of a coin records is an action of the coin, recorded with the
parameters it declares. -/
theorem analyze_recorded {coin : CoinDecl} {codec : AddressCodec} {a : Analysis}
    (h : analyze coin codec = .ok a) :
    ∀ i ∈ a.actions, i.action ∈ coin.actions ∧ Check.ParamsNamed i.action.params i.params := by
  unfold analyze at h
  dsimp only at h
  split at h
  · cases h
    refine ((?_ : Check.Records (fun i => i.action ∈ coin.actions ∧
      Check.ParamsNamed i.action.params i.params) (fun _ => True) _) _ fun i hi => by cases hi).2
    refine Check.records_bind Check.records_declareGlobals fun _ _ => ?_
    refine Check.records_seq Check.steady_coinDecorators fun _ =>
      Check.records_seq Check.steady_spendPath fun _ => ?_
    refine Check.records_bind (Check.records_forIn (fun _ => True) _
      (fun f _ _ _ => Check.records_bind (Check.records_function f) fun _ _ =>
        Check.records_pure trivial) trivial) fun _ _ => ?_
    refine Check.records_bind (Check.records_forIn (fun _ => True) _
      (fun a ha _ _ => Check.records_bind (Check.records_action fun i hi hp => ⟨hi ▸ ha, hi ▸ hp⟩)
        fun _ _ => Check.records_pure trivial) trivial) fun _ _ => ?_
    exact Check.records_of_steady Check.steady_resolveIncludes
  · cases h

/-- Every action the check of a coin records is an action of the coin. -/
theorem analyze_actions {coin : CoinDecl} {codec : AddressCodec} {a : Analysis}
    (h : analyze coin codec = .ok a) : ∀ i ∈ a.actions, i.action ∈ coin.actions :=
  fun i hi => (analyze_recorded h i hi).1


theorem stateT_bind_ok {σ ε α β : Type} {x : StateT σ (Except ε) α} {f : α → StateT σ (Except ε) β}
    {s s' : σ} {b : β} (h : (x >>= f).run s = .ok (b, s')) :
    ∃ a s₁, x.run s = .ok (a, s₁) ∧ (f a).run s₁ = .ok (b, s') := by
  rw [StateT.run_bind] at h
  obtain ⟨⟨a, s₁⟩, h1, h2⟩ := except_bind_ok h
  exact ⟨a, s₁, h1, h2⟩

/-- The programs generated for a coin come with a signature of each action the check found. -/
theorem generate_signatures {a : Analysis} {request : String} {codec : AddressCodec}
    {maxDepth : Bound} {g : Generated} (h : generate a request codec maxDepth = .ok g) :
    g.signatures = a.actions.map ActionInfo.signature := by
  unfold generate at h
  obtain ⟨mode, -, h⟩ := except_bind_ok h
  dsimp only at h
  obtain ⟨⟨g', st⟩, hrun, h⟩ := except_bind_ok h
  obtain ⟨_, -, h⟩ := except_bind_ok h
  cases h
  split at hrun
  · obtain ⟨⟨main, mods⟩, _, -, hrun⟩ := stateT_bind_ok hrun
    obtain ⟨_, _, -, hrun⟩ := stateT_bind_ok hrun
    cases hrun
    rfl
  · obtain ⟨main, _, -, hrun⟩ := stateT_bind_ok hrun
    obtain ⟨_, _, -, hrun⟩ := stateT_bind_ok hrun
    cases hrun
    rfl

theorem parse_actions_named {src : String} {coin : CoinDecl} (h : parse src = .ok coin) :
    ∀ a ∈ coin.actions, NameLike a.name ∧ a.name ≠ "" := by
  obtain ⟨toks, htoks, h⟩ := except_bind_ok h
  have hn : Named toks.toArray.toList := by
    rw [List.toList_toArray]
    exact tokenize_named htoks
  simp only [StateT.run'] at h
  cases hr : (Parse.program (16 * (toks.length + 2))).run toks.toArray 0 with
  | error e => rw [hr] at h; cases h
  | ok p =>
    rw [hr] at h
    cases h
    exact Parse.yields_program _ _ _ _ _ hn hr

/-- The signatures of the programs generated for a coin read from a text name its actions by
names. -/
theorem generate_signatures_named {src : String} {coin : CoinDecl} {codec codec' : AddressCodec}
    {a : Analysis} {request : String} {maxDepth : Bound} {g : Generated}
    (hcoin : parse src = .ok coin) (ha : analyze coin codec = .ok a)
    (hg : generate a request codec' maxDepth = .ok g) : ∀ s ∈ g.signatures, NameLike s.name := by
  rw [generate_signatures hg]
  intro s hs
  obtain ⟨i, hi, rfl⟩ := List.mem_map.mp hs
  exact (parse_actions_named hcoin i.action (analyze_actions ha i hi)).1

theorem analyze_actions_nonempty {src : String} {coin : CoinDecl} {codec : AddressCodec}
    {a : Analysis} (hcoin : parse src = .ok coin) (ha : analyze coin codec = .ok a) :
    ∀ i ∈ a.actions, i.action.name ≠ "" :=
  fun i hi => (parse_actions_named hcoin i.action (analyze_actions ha i hi)).2

end PuzzleKit.Script
