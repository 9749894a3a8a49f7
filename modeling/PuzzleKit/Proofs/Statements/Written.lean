import PuzzleKit.Proofs.Statements.Reads
import PuzzleKit.Proofs.ActionNames

/-!
# Statements as the parser writes them

The parser writes a declaration only as a name of letters, digits and underscores given its
value with `=`, and any other assignment only with `=`, `+=` or `-=` (`Stmt.written`). The scan
makes a name token only of such characters (`tokenize_plain`), and every reading step keeps to
what its tokens give (`Parse.Gives`), so every body of a coin read from a text is written so
(`parse_written`). A plain name has no dot: it is never the key of the amount or of a state
field.
-/

namespace PuzzleKit.Script

/-- A name the scan can make: letters, digits and underscores. -/
def PlainName (n : String) : Prop := ∀ ch ∈ n.toList, isNameChar ch = true

theorem PlainName.no_dot {n : String} (h : PlainName n) : '.' ∉ n.toList :=
  fun hd => absurd (h '.' hd) (by decide)

mutual

/-- Whether a statement is one the parser writes: a declaration gives a plain name its value
with `=`, another assignment uses `=`, `+=` or `-=`, and so do the arms of an `if`. -/
def Stmt.written : Stmt → Bool
  | .assign (.ident n _) op _ _ (some _) => op == "=" && n.toList.all isNameChar
  | .assign _ _ _ _ (some _) => false
  | .assign _ op _ _ none => op == "=" || op == "+=" || op == "-="
  | .branch _ yes no _ => Stmt.blockWritten yes && Stmt.optionWritten no
  | _ => true

/-- Whether every statement of a block is one the parser writes. -/
def Stmt.blockWritten : List Stmt → Bool
  | [] => true
  | s :: ss => s.written && Stmt.blockWritten ss

/-- Whether an optional block is one the parser writes. -/
def Stmt.optionWritten : Option (List Stmt) → Bool
  | some ss => Stmt.blockWritten ss
  | none => true

end

/-- Whether every body of a coin, of a function or of an action, is as the parser writes it. -/
def CoinDecl.written (coin : CoinDecl) : Bool :=
  coin.functions.all (fun f => Stmt.blockWritten f.body) &&
    coin.actions.all (fun a => Stmt.blockWritten a.body)

theorem Stmt.written_assign_none (t : Expr) (op : String) (v : Expr) (p : Pos) :
    (Stmt.assign t op v p none).written = (op == "=" || op == "+=" || op == "-=") := by
  cases t <;> rfl

mutual

theorem Stmt.declaresSimply_of_written : ∀ {s : Stmt}, s.written = true → s.declaresSimply = true
  | .assign t op _ _ d, h => by
    cases d with
    | none => cases t <;> rfl
    | some _ =>
      cases t <;> simp only [Stmt.written, Bool.and_eq_true, beq_iff_eq, Bool.false_eq_true] at h
      simp [Stmt.declaresSimply, h.1]
  | .branch _ yes no _, h => by
    simp only [Stmt.written, Bool.and_eq_true] at h
    simp only [Stmt.declaresSimply, Bool.and_eq_true]
    exact ⟨Stmt.blockDeclaresSimply_of_written h.1, Stmt.optionDeclaresSimply_of_written h.2⟩
  | .require .., _ | .send .., _ | .emit .., _ | .eval .., _ | .ret .., _ | .fail .., _ => rfl

theorem Stmt.blockDeclaresSimply_of_written : ∀ {ss : List Stmt},
    Stmt.blockWritten ss = true → Stmt.blockDeclaresSimply ss = true
  | [], _ => rfl
  | s :: ss, h => by
    simp only [Stmt.blockWritten, Bool.and_eq_true] at h
    simp only [Stmt.blockDeclaresSimply, Bool.and_eq_true]
    exact ⟨Stmt.declaresSimply_of_written h.1, Stmt.blockDeclaresSimply_of_written h.2⟩

theorem Stmt.optionDeclaresSimply_of_written : ∀ {no : Option (List Stmt)},
    Stmt.optionWritten no = true → Stmt.optionDeclaresSimply no = true
  | some _, h => Stmt.blockDeclaresSimply_of_written h
  | none, _ => rfl

end

mutual

theorem Stmt.declared_plain : ∀ {s : Stmt}, s.written = true → ∀ n ∈ Stmt.declared s, PlainName n
  | .assign t op _ _ d, h, n, hn => by
    cases d with
    | none => simp [Stmt.declared] at hn
    | some _ =>
      cases t <;> simp only [Stmt.written, Bool.and_eq_true, List.all_eq_true,
        Bool.false_eq_true] at h
      simp only [Stmt.declared, assignKey, List.mem_singleton] at hn
      subst hn
      exact h.2
  | .branch _ yes no _, h, n, hn => by
    simp only [Stmt.written, Bool.and_eq_true] at h
    simp only [Stmt.declared, List.mem_append] at hn
    rcases hn with hn | hn
    · exact Block.declared_plain h.1 n hn
    · cases no with
      | none => simp [Block.declaredOpt] at hn
      | some ss => exact Block.declared_plain h.2 n hn
  | .require .., _, _, hn | .send .., _, _, hn | .emit .., _, _, hn | .eval .., _, _, hn
  | .ret .., _, _, hn | .fail .., _, _, hn => by simp [Stmt.declared] at hn

theorem Block.declared_plain : ∀ {ss : List Stmt}, Stmt.blockWritten ss = true →
    ∀ n ∈ Block.declared ss, PlainName n
  | [], _, _, hn => by simp [Block.declared] at hn
  | s :: ss, h, n, hn => by
    simp only [Stmt.blockWritten, Bool.and_eq_true] at h
    simp only [Block.declared, List.mem_append] at hn
    exact hn.elim (Stmt.declared_plain h.1 n) (Block.declared_plain h.2 n)

end

/-! ## Scanning -/

/-- A token that is a name holds only characters of names. -/
def Token.Plain (t : Token) : Prop := ∀ n, t.lexeme = .ident n → PlainName n

theorem plainName_run {c : Char} {rest : List Char} (hc : isNameStart c = true) :
    PlainName (String.ofList (c :: rest.takeWhile isNameChar)) := by
  intro ch hch
  simp only [String.toList_ofList, List.mem_cons] at hch
  rcases hch with rfl | hch
  · simp [isNameChar, hc]
  · exact List.mem_takeWhile_imp hch

theorem next_plain {cs : List Char} {pos : Pos} {n : String} {taken rest : List Char}
    (h : next cs pos = .ok (some (.ident n), taken, rest)) : PlainName n := by
  unfold next at h
  split at h
  · cases h
  · dsimp only at h
    repeat' split at h
    -- the other branches read no name, or fail
    all_goals try (simp at h; done)
    · obtain ⟨text, -, h⟩ := except_bind_ok h
      simp at h
    · rename_i hname
      simp only [Except.ok.injEq, Prod.mk.injEq, Option.some.injEq] at h
      rw [nameLexeme_ident h.1]
      exact plainName_run hname

theorem scanFrom_plain : ∀ (fuel : Nat) (cs : List Char) (pos : Pos) {toks : List Token},
    scanFrom fuel cs pos = .ok toks → ∀ t ∈ toks, t.Plain
  | 0, _, pos, _, h => by
    cases h
    intro t ht n hn
    rw [List.mem_singleton] at ht
    subst ht
    cases hn
  | fuel + 1, cs, pos, toks, h => by
    unfold scanFrom at h
    split at h
    · cases h
      intro t ht n hn
      rw [List.mem_singleton] at ht
      subst ht
      cases hn
    · obtain ⟨⟨tok, taken, rest⟩, hnext, h⟩ := except_bind_ok h
      obtain ⟨more, hmore, h⟩ := except_bind_ok h
      have ih := scanFrom_plain fuel rest _ hmore
      cases tok with
      | none =>
        cases h
        exact ih
      | some l =>
        cases h
        intro t ht n hn
        rcases List.mem_cons.mp ht with rfl | ht
        · cases hn
          exact next_plain hnext
        · exact ih t ht n hn

theorem tokenize_plain {src : String} {toks : List Token} (h : tokenize src = .ok toks) :
    ∀ t ∈ toks, t.Plain :=
  scanFrom_plain _ _ _ h

/-! ## Reading -/

namespace Parse

section Gives

variable {α β γ : Type} {T : Token → Prop}

/-- A reading step whose result satisfies `Q` whenever it succeeds on tokens that all satisfy
`T`. -/
def Gives (T : Token → Prop) (Q : α → Prop) (x : ParseM α) : Prop :=
  ∀ (toks : Array Token) (i : Nat) (a : α) (j : Nat), (∀ t ∈ toks.toList, T t) →
    (x.run toks).run i = .ok (a, j) → Q a

theorem gives_pure {Q : α → Prop} {a : α} (h : Q a) : Gives T Q (pure a) := by
  intro toks i b j _ hr
  cases hr
  exact h

theorem gives_bind {P : α → Prop} {Q : β → Prop} {x : ParseM α} {f : α → ParseM β}
    (hx : Gives T P x) (hf : ∀ a, P a → Gives T Q (f a)) : Gives T Q (x >>= f) := by
  intro toks i b j hT hr
  obtain ⟨a, k, h1, h2⟩ := bind_ok hr
  exact hf a (hx toks i a k hT h1) toks k b j hT h2

theorem gives_seq {Q : β → Prop} {x : ParseM α} {f : α → ParseM β}
    (hf : ∀ a, Gives T Q (f a)) : Gives T Q (x >>= f) :=
  gives_bind (P := fun _ => True) (fun _ _ _ _ _ _ => trivial) fun a _ => hf a

theorem gives_fault {Q : α → Prop} (text : String) (pos : Pos) : Gives T Q (fault text pos) := by
  intro toks i a j _ hr
  cases hr

theorem gives_spent {Q : α → Prop} : Gives T Q spent :=
  gives_seq fun _ => gives_fault _ _

theorem gives_forIn (I : β → Prop) {f : γ → β → ParseM (ForInStep β)} :
    ∀ (xs : List γ), (∀ x ∈ xs, ∀ b, I b → Gives T (fun s => I s.value) (f x b)) →
      ∀ b, I b → Gives T I (forIn xs b f)
  | [], _, b, hb => gives_pure hb
  | x :: xs, hf, b, hb => by
    rw [List.forIn_cons]
    refine gives_bind (hf x List.mem_cons_self b hb) fun s hs => ?_
    cases s with
    | done b' => exact gives_pure hs
    | yield b' => exact gives_forIn I xs (fun y hy => hf y (List.mem_cons_of_mem _ hy)) b' hs

theorem gives_peek (ahead : Nat) : Gives Token.Plain Token.Plain (peek ahead) := by
  intro toks i t j hT hr
  rw [peek_run] at hr
  cases hr
  rw [Array.getD_eq_getD_getElem?]
  cases hk : toks[min (i + ahead) (toks.size - 1)]? with
  | none => intro n hd; cases hd
  | some t => exact hT t (Array.mem_toList_iff.mpr (Array.mem_of_getElem? hk))

theorem gives_advance : Gives Token.Plain Token.Plain advance := by
  refine gives_bind (gives_peek 0) fun t ht => ?_
  dsimp only
  split
  · exact gives_seq fun _ => gives_pure ht
  · exact gives_pure ht

theorem gives_expect (p : Lexeme → Bool) (want : String) :
    Gives Token.Plain Token.Plain (expect p want) := by
  refine gives_bind (gives_peek 0) fun t _ => ?_
  split
  · exact gives_advance
  · exact gives_fault _ _

theorem gives_expectIdent (what : String) :
    Gives Token.Plain (fun r => PlainName r.1) (expectIdent what) := by
  refine gives_bind (gives_expect _ _) fun t ht => ?_
  split
  · exact gives_pure (ht _ ‹_›)
  · exact gives_pure (by simp [PlainName])

theorem gives_assignOp :
    Gives T (fun o => ∀ op ∈ o, op = "=" ∨ op = "+=" ∨ op = "-=") assignOp? := by
  unfold assignOp?
  refine gives_bind (gives_forIn (fun s : Option (Option String) × Unit =>
    ∀ o ∈ s.1, ∀ op ∈ o, op = "=" ∨ op = "+=" ∨ op = "-=") _ ?_ _ (by simp)) fun s hs => ?_
  · intro op hop b _
    refine gives_seq fun d => ?_
    split
    · refine gives_pure ?_
      simp only [ForInStep.value, Option.mem_def, Option.some.injEq, forall_eq']
      simpa using hop
    · exact gives_pure (by simp [ForInStep.value])
  · obtain ⟨o, u⟩ := s
    dsimp only
    cases o with
    | some r => exact gives_pure (hs r (by simp))
    | none => exact gives_pure (by simp)

end Gives

/-! ### Statements and blocks -/

mutual

theorem gives_statement : ∀ fuel, Gives Token.Plain (fun s : Stmt => s.written = true) (statement fuel)
  | 0 => gives_spent
  | fuel + 1 => by
    unfold statement
    refine gives_seq fun t => ?_
    split
    case h_5 => exact gives_branch fuel
    case h_7 =>
      refine gives_seq fun _ => gives_bind (gives_expectIdent _) fun ⟨name, _⟩ hname => ?_
      refine gives_seq fun _ => gives_seq fun _ => gives_seq fun _ => gives_pure ?_
      simpa [Stmt.written, PlainName] using hname
    case h_8 =>
      refine gives_seq fun e => gives_bind gives_assignOp fun o ho => ?_
      split
      · split
        · exact gives_fault _ _
        · refine gives_seq fun _ => gives_seq fun _ => gives_pure ?_
          rw [Stmt.written_assign_none]
          simpa [or_assoc] using ho _ rfl
      · exact gives_seq fun _ => gives_pure rfl
    all_goals
      repeat' first
        | exact gives_pure rfl
        | exact gives_fault _ _
        | refine gives_seq fun _ => ?_
        | split

theorem gives_branch : ∀ fuel, Gives Token.Plain (fun s : Stmt => s.written = true) (branch fuel)
  | 0 => gives_spent
  | fuel + 1 => by
    unfold branch
    refine gives_seq fun _ => gives_seq fun _ => gives_seq fun _ => gives_seq fun _ => ?_
    refine gives_bind (gives_block fuel) fun yes hyes => gives_seq fun _ => ?_
    split
    · refine gives_seq fun _ => ?_
      split
      · refine gives_bind (gives_branch fuel) fun s hs => gives_pure ?_
        simp [Stmt.written, Stmt.optionWritten, Stmt.blockWritten, hyes, hs]
      · refine gives_bind (gives_block fuel) fun ss hss => gives_pure ?_
        simp [Stmt.written, Stmt.optionWritten, hyes, hss]
    · exact gives_pure (by simp [Stmt.written, Stmt.optionWritten, hyes])

theorem gives_block : ∀ fuel, Gives Token.Plain (fun ss => Stmt.blockWritten ss = true) (block fuel)
  | 0 => gives_spent
  | fuel + 1 => by
    unfold block
    exact gives_seq fun _ => gives_blockRest fuel

theorem gives_blockRest : ∀ fuel,
    Gives Token.Plain (fun ss => Stmt.blockWritten ss = true) (blockRest fuel)
  | 0 => gives_spent
  | fuel + 1 => by
    unfold blockRest
    refine gives_seq fun _ => ?_
    split
    · exact gives_pure rfl
    · refine gives_seq fun _ => ?_
      dsimp only
      split
      · exact gives_bind (P := fun _ => False) (gives_fault _ _) fun _ h => h.elim
      refine gives_bind (gives_statement fuel) fun s hs => ?_
      refine gives_bind (gives_blockRest fuel) fun ss hss => gives_pure ?_
      simp [Stmt.blockWritten, hs, hss]

end

/-! ### Members and the coin -/

theorem gives_function (fuel : Nat) :
    Gives Token.Plain (fun f : FunctionDecl => Stmt.blockWritten f.body = true) (function fuel) := by
  unfold function
  repeat' first
    | exact gives_bind (gives_block fuel) fun _ h => gives_pure h
    | refine gives_seq fun _ => ?_
    | split

/-- Members whose function and action bodies are as the parser writes them. -/
def Members.Written (m : Members) : Prop :=
  (∀ f ∈ m.functions, Stmt.blockWritten f.body = true) ∧
    ∀ a ∈ m.actions, Stmt.blockWritten a.body = true

theorem gives_member (fuel : Nat) {m : Members} (hm : m.Written) :
    Gives Token.Plain Members.Written (member fuel m) := by
  unfold member
  refine gives_seq fun t => ?_
  split
  case h_5 | h_6 =>
    refine gives_bind (gives_function fuel) fun f hf => gives_pure ⟨fun g hg => ?_, hm.2⟩
    rcases List.mem_append.mp hg with hg | hg
    · exact hm.1 g hg
    · rw [List.mem_singleton.mp hg]
      exact hf
  case h_8 | h_9 =>
    repeat' first
      | refine gives_bind (gives_block fuel) fun body hb => gives_pure ?_
      | refine gives_seq fun _ => ?_
    refine ⟨hm.1, fun a ha => ?_⟩
    rcases List.mem_append.mp ha with ha | ha
    · exact hm.2 a ha
    · rw [List.mem_singleton.mp ha]
      exact hb
  case h_10 => exact gives_fault _ _
  all_goals
    repeat' first | exact gives_pure hm | refine gives_seq fun _ => ?_ | split

theorem gives_members : ∀ (fuel : Nat) {m : Members}, m.Written →
    Gives Token.Plain Members.Written (members fuel m)
  | 0, _, _ => gives_spent
  | fuel + 1, m, hm => by
    unfold members
    dsimp only
    repeat' first
      | exact gives_pure hm
      | exact gives_fault _ _
      | exact gives_bind (gives_member fuel hm) fun _ hm' => gives_members fuel hm'
      | refine gives_seq fun _ => ?_
      | split

theorem Members.written_start (incs : List String) : Members.Written { includes := incs } :=
  ⟨fun f hf => by simp at hf, fun a ha => by simp at ha⟩

theorem gives_program (fuel : Nat) :
    Gives Token.Plain (fun coin : CoinDecl => (∀ f ∈ coin.functions, Stmt.blockWritten f.body = true) ∧
      ∀ a ∈ coin.actions, Stmt.blockWritten a.body = true) (program fuel) := by
  unfold program
  repeat' first
    | exact gives_bind (gives_members fuel (Members.written_start _)) fun m hm =>
        gives_seq fun _ => gives_seq fun _ => gives_pure hm
    | refine gives_seq fun _ => ?_

end Parse

/-- Every body of a coin read from a text, of a function or of an action, is as the parser
writes it. -/
theorem parse_written {src : String} {coin : CoinDecl} (h : parse src = .ok coin) :
    coin.written = true := by
  obtain ⟨toks, htoks, h⟩ := except_bind_ok h
  have hT : ∀ t ∈ toks.toArray.toList, t.Plain := by
    rw [List.toList_toArray]
    exact tokenize_plain htoks
  simp only [StateT.run'] at h
  cases hr : (Parse.program (16 * (toks.length + 2))).run toks.toArray 0 with
  | error e => rw [hr] at h; cases h
  | ok p =>
    rw [hr] at h
    cases h
    obtain ⟨hf, ha⟩ := Parse.gives_program _ _ _ _ _ hT hr
    simp only [CoinDecl.written, Bool.and_eq_true, List.all_eq_true]
    exact ⟨hf, ha⟩

end PuzzleKit.Script
